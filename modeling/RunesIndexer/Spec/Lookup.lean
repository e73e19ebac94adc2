import RunesIndexer.Model.Text
import RunesIndexer.Spec.Ranges
import RunesIndexer.Spec.Queries
import RunesIndexer.Spec.Registry

/-! # Ways to a rune

    A rune is asked for by its name, by its id or by the transaction that etched it. The
    three ways end at the same entry. The answers differ in one place: who asks by id gets
    the text of the id back as it was written, and one id can be written in many ways.
-/

namespace RunesIndexer

open Resumption MonadicFold

/-! ### Rune ids -/

theorem splitOnce_append {c : Char} {a b : List Char} (h : c ∉ a) :
    splitOnce c (a ++ c :: b) = some (a, b) := by
  induction a with
  | nil => simp [splitOnce]
  | cons x a ih =>
    have hne : x ≠ c := fun heq => h (heq ▸ List.mem_cons_self)
    have hrest := ih fun hmem => h (List.mem_cons_of_mem x hmem)
    rw [List.cons_append, splitOnce, if_neg hne, hrest]
    rfl

/-- A printed id is read back, if its numbers are those of an id. -/
theorem RuneId.fromStr_display {id : RuneId} (hblock : id.block < Rpc.u64Bound)
    (htx : id.tx < 2 ^ 32) : RuneId.fromStr id.display = some id := by
  have hcolon : ':' ∉ Nat.toDigits 10 id.block := Rpc.notMem_toDigits (by decide) id.block
  have htx' : id.tx < Rpc.u64Bound := htx.trans (by decide)
  have hread : parseU32 (Nat.toDigits 10 id.tx) = some id.tx := by
    unfold parseU32
    rw [Rpc.parseU64_toDigits htx']
    exact Option.filter_some_pos (by simpa using htx)
  unfold RuneId.fromStr RuneId.display
  simp [splitOnce_append hcolon, Rpc.parseU64_toDigits hblock, hread]

/-- Rune ids are parsed and printed as the crate does it. -/
structure Texts.DecimalIds (texts : Texts) : Prop where
  parse : ∀ str, texts.parseRuneId str = RuneId.fromStr str.toList
  print : ∀ id, texts.printRuneId id = String.ofList id.display

theorem Texts.DecimalIds.parse_print {texts : Texts} (h : texts.DecimalIds) {id : RuneId}
    (hblock : id.block < Rpc.u64Bound) (htx : id.tx < 2 ^ 32) :
    texts.parseRuneId (texts.printRuneId id) = some id := by
  rw [h.parse, h.print, String.toList_ofList]
  exact RuneId.fromStr_display hblock htx

/-! ### Answers about an entry -/

/-- The three strings stand for one stored rune: they are read as its name, as its id and as
    the txid of its etching. -/
structure Texts.Denote (texts : Texts) (s : Store) (name runeId txid : String) (id : RuneId)
    (e : RuneEntry) : Prop where
  stored : s.runeIdToRuneEntry.get? id = some e
  name : ∃ sr, texts.parseSpacedRune name = some sr ∧ sr.rune = e.spacedRune.rune
  runeId : texts.parseRuneId runeId = some id
  txid : texts.parseTxid txid = some e.etching

namespace Query

/-- By name and by id the same is returned, and the etching has the same id and
    confirmations. -/
def Agree (texts : Texts) (s : Store) (name runeId txid : String) : Prop :=
  ∃ r g, getRune texts name s = .ok (some r) ∧ getRuneById texts runeId s = .ok (some r) ∧
    getEtching texts txid s = .ok (some g) ∧ g.runeId = r.runeId ∧
    g.confirmations = r.confirmations

variable {texts : Texts} {s : Store} {lib : Crates} {done : List Located}

/-- By name. -/
theorem getRune_some (hreg : Registry lib done s.ledger) {name : String} {sr : SpacedRune}
    {id : RuneId} {e : RuneEntry} {cur : Nat} (hname : texts.parseSpacedRune name = some sr)
    (he : s.runeIdToRuneEntry.get? id = some e) (hrune : sr.rune = e.spacedRune.rune)
    (hcur : s.memLatestBlockHeight = some cur) :
    getRune texts name s = .ok (some (runeEntry texts cur (texts.printRuneId id) e)) := by
  have hid : s.runeToRuneId.get? sr.rune = some id :=
    (hreg.runeToRuneId_iff _ _).mpr ⟨e, he, hrune.symm⟩
  unfold getRune Store.memGetRuneToRuneId Store.memGetRuneIdToRuneEntry
  rw [hname]
  dsimp only
  rw [hid]
  dsimp only
  rw [he]
  dsimp only
  rw [curHeight_of_latest hcur]
  rfl

/-- There is an answer only for the name of an entry. -/
theorem getRune_eq_some (hreg : Registry lib done s.ledger) {name : String} {sr : SpacedRune}
    {r : Interface.RuneEntry} (hname : texts.parseSpacedRune name = some sr)
    (h : getRune texts name s = .ok (some r)) :
    ∃ id e, s.runeIdToRuneEntry.get? id = some e ∧ sr.rune = e.spacedRune.rune := by
  unfold getRune at h
  rw [hname] at h
  dsimp only at h
  cases hid : s.memGetRuneToRuneId sr.rune with
  | none =>
    rw [hid] at h
    cases h
  | some id =>
    obtain ⟨e, he, hrune⟩ := (hreg.runeToRuneId_iff _ _).mp hid
    exact ⟨id, e, he, hrune.symm⟩

/-- By the etching. -/
theorem getEtching_some (hreg : Registry lib done s.ledger) {txid : String} {id : RuneId}
    {e : RuneEntry} {cur : Nat} (htxid : texts.parseTxid txid = some e.etching)
    (he : s.runeIdToRuneEntry.get? id = some e) (hcur : s.memLatestBlockHeight = some cur) :
    getEtching texts txid s =
      .ok (some ⟨confirmations cur e.block, texts.printRuneId id⟩) := by
  have hetching := (hreg.memGetEtching_iff e.etching id e).mpr ⟨he, rfl⟩
  unfold getEtching
  rw [htxid]
  dsimp only
  rw [curHeight_of_latest hcur, hetching]
  rfl

end Query

/-! ### Runs -/

section lookups

variable {lib : Crates} {network : BitcoinNetwork} {node : Node} {chain : List BlockData}
  {s : Store} {texts : Texts}

/-- Stored ids have the numbers of an id: heights are `u32`, and so are positions in blocks. -/
theorem Run.id_lt (hres : ReservedNames lib) (h : Run lib network node DistinctTxids chain s)
    (hheights : lib.firstRuneHeight network + chain.length ≤ 2 ^ 32) {id : RuneId} {e : RuneEntry}
    (he : s.runeIdToRuneEntry.get? id = some e) : id.block < 2 ^ 32 ∧ id.tx < 2 ^ 32 := by
  have hx := Ledger.get?_identities.mpr ⟨e, show s.ledger.entries.get? id = some e from he, rfl⟩
  obtain ⟨-, d, hd, rfl, -⟩ := (Registry.of_run hres h).positions id _ hx
  have hblock := mem_located_block hd
  exact ⟨by omega, mem_located_tx hd⟩

/-- Between blocks the three ways end at the same entry: the answers by name and by id are
    the same but for the text of the id, so they agree exactly if it is written as it is
    printed. A name is known exactly if its entry is returned for some id. -/
theorem Run.lookups (hres : ReservedNames lib) (hids : texts.DecimalIds)
    (h : Run lib network node DistinctTxids chain s)
    (hheights : lib.firstRuneHeight network + chain.length ≤ 2 ^ 32) :
    (∀ name runeId txid id e, texts.Denote s name runeId txid id e →
      (Query.Agree texts s name runeId txid ↔ runeId = texts.printRuneId id) ∧
      Query.Agree texts s name (texts.printRuneId id) txid ∧
      ∃ r, Query.getRune texts name s = .ok (some r) ∧
        Query.getRuneById texts runeId s = .ok (some { r with runeId := runeId })) ∧
    ∀ name sr, texts.parseSpacedRune name = some sr →
      ((∃ r, Query.getRune texts name s = .ok (some r)) ↔
        ∃ runeId id e r, texts.parseRuneId runeId = some id ∧
          s.runeIdToRuneEntry.get? id = some e ∧ e.spacedRune.rune = sr.rune ∧
          Query.getRuneById texts runeId s = .ok (some r)) := by
  -- the three lookups go through maps that point at one another
  have hreg := Registry.of_run hres h
  have hup := h.upToLatest
  refine ⟨fun name runeId txid id e hd => ?_, fun name sr hname => ⟨fun hr => ?_, fun hr => ?_⟩⟩
  · obtain ⟨cur, hcur, -⟩ := hup.entries id e hd.stored
    obtain ⟨sr, hname, hrune⟩ := hd.name
    have hblock := (h.id_lt hres hheights hd.stored).1
    have hprinted := hids.parse_print (hblock.trans (by decide)) (h.id_lt hres hheights hd.stored).2
    have hbyName := Query.getRune_some hreg hname hd.stored hrune hcur
    have hbyId := Query.getRuneById_some hd.runeId hd.stored hcur
    have hbyTxid := Query.getEtching_some hreg hd.txid hd.stored hcur
    have hagree : Query.Agree texts s name (texts.printRuneId id) txid :=
      ⟨_, _, hbyName, Query.getRuneById_some hprinted hd.stored hcur, hbyTxid, rfl, rfl⟩
    refine ⟨⟨fun hall => ?_, fun heq => heq ▸ hagree⟩, hagree, _, hbyName, hbyId⟩
    obtain ⟨r, g, hr, hr', -⟩ := hall
    rw [hbyName] at hr
    rw [hbyId, ← hr] at hr'
    exact congrArg Interface.RuneEntry.runeId (Option.some.inj (Except.ok.inj hr'))
  · obtain ⟨r, hr⟩ := hr
    obtain ⟨id, e, he, hrune⟩ := Query.getRune_eq_some hreg hname hr
    obtain ⟨cur, hcur, -⟩ := hup.entries id e he
    have hblock := (h.id_lt hres hheights he).1
    have hprinted := hids.parse_print (hblock.trans (by decide)) (h.id_lt hres hheights he).2
    exact ⟨_, id, e, _, hprinted, he, hrune.symm, Query.getRuneById_some hprinted he hcur⟩
  · obtain ⟨-, id, e, -, -, he, hrune, -⟩ := hr
    obtain ⟨cur, hcur, -⟩ := hup.entries id e he
    exact ⟨_, Query.getRune_some hreg hname he hrune.symm hcur⟩

end lookups

namespace Sample

/-- The text forms of the crate, and txids as decimal numbers. -/
def idTexts : Texts where
  parseTxid str := (Rpc.parseU64 str.toList).map (BitVec.ofNat 256)
  parseSpacedRune str := SpacedRune.fromStr str.toList
  parseRuneId str := RuneId.fromStr str.toList
  parseOutPoint _ := none
  printTxid txid := toString txid.toNat
  printSpacedRune sr := String.ofList sr.display
  printRuneId id := String.ofList id.display

theorem idTexts_decimal : idTexts.DecimalIds := ⟨fun _ => rfl, fun _ => rfl⟩

/-- The name of the rune of the sample chain. -/
def runeName : String := "AAAAAAAAAAAAAAAAAAAAAAAAAAA"

/-- The sample chain, and its rune asked for by name, id and etching. -/
theorem denote_run {str : String} (hstr : idTexts.parseRuneId str = some runeId) :
    ∃ s e, Run crates .regtest (fun _ => Answers.any) DistinctTxids chain s ∧
      idTexts.Denote s runeName str "1" runeId e := by
  obtain ⟨s, hrun, hany⟩ := sample_exec DistinctTxids distinctTxids_sample
    (P := fun s => (s.runeIdToRuneEntry.get? runeId).any fun e =>
      e.spacedRune.rune = ⟨reservedBase⟩ ∧ e.etching = 1) (by decide)
  obtain ⟨e, he, hvalues⟩ := (Option.any_eq_true _ _).mp hany
  obtain ⟨hrune, hetching⟩ := of_decide_eq_true hvalues
  have hname : idTexts.parseSpacedRune runeName = some ⟨⟨reservedBase⟩, 0⟩ := by decide
  have htxid : idTexts.parseTxid "1" = some 1 := by decide
  exact ⟨s, e, hrun, he, ⟨_, hname, hrune.symm⟩, hstr, hetching ▸ htxid⟩

end Sample

theorem Run.lookups_sample :
    ∃ s, Run Sample.crates .regtest (fun _ => Answers.any) DistinctTxids Sample.chain s ∧
      Query.Agree Sample.idTexts s Sample.runeName "0:0" "1" := by
  have hparse : Sample.idTexts.parseRuneId "0:0" = some Sample.runeId := by decide
  have hprint : "0:0" = Sample.idTexts.printRuneId Sample.runeId := by decide
  obtain ⟨s, e, hrun, hdenote⟩ := Sample.denote_run hparse
  exact ⟨s, hrun, ((Run.lookups reservedNames_sample Sample.idTexts_decimal hrun
    (by decide)).1 _ _ _ _ _ hdenote).1.mpr hprint⟩

/-- Asked for as "0:00", the rune comes back under that id and under "0:0". -/
theorem Run.lookups_echo :
    ∃ s e r, Run Sample.crates .regtest (fun _ => Answers.any) DistinctTxids Sample.chain s ∧
      Sample.idTexts.Denote s Sample.runeName "0:00" "1" Sample.runeId e ∧
      Query.getRune Sample.idTexts Sample.runeName s = .ok (some r) ∧ r.runeId = "0:0" ∧
      Query.getRuneById Sample.idTexts "0:00" s = .ok (some { r with runeId := "0:00" }) ∧
      ¬ Query.Agree Sample.idTexts s Sample.runeName "0:00" "1" := by
  have hparse : Sample.idTexts.parseRuneId "0:00" = some Sample.runeId := by decide
  have hprint : Sample.idTexts.printRuneId Sample.runeId = "0:0" := by decide
  obtain ⟨s, e, hrun, hdenote⟩ := Sample.denote_run hparse
  obtain ⟨cur, hcur, -⟩ := hrun.upToLatest.entries _ _ hdenote.stored
  obtain ⟨sr, hname, hrune⟩ := hdenote.name
  have hbyName := Query.getRune_some (Registry.of_run reservedNames_sample hrun) hname
    hdenote.stored hrune hcur
  have hbyId := Query.getRuneById_some hparse hdenote.stored hcur
  refine ⟨s, e, _, hrun, hdenote, hbyName, hprint, hbyId, fun hall => ?_⟩
  obtain ⟨r, g, hr, hr', -⟩ := hall
  rw [hbyName] at hr
  rw [hbyId, ← hr] at hr'
  have hsame : "0:00" = Sample.idTexts.printRuneId Sample.runeId :=
    congrArg Interface.RuneEntry.runeId (Option.some.inj (Except.ok.inj hr'))
  rw [hprint] at hsame
  exact absurd hsame (by decide)

end RunesIndexer
