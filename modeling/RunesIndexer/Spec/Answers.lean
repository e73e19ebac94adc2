import RunesIndexer.Spec.Queries
import RunesIndexer.Spec.Refinement

/-! # The queries answer what the protocol says

    The answers of the interface as functions of the protocol alone, and the theorem that a
    canister which holds a chain gives them: whatever it went through, a caller sees the
    meaning of the chain and nothing else.
-/

namespace RunesIndexer

open Query

/-! ### The right answers -/

namespace Protocol

section answers

variable (P : Protocol) (texts : Texts) (cur : Nat)

/-- The answer of `get_rune_by_id`. -/
def runeById (str : String) : Option Interface.RuneEntry :=
  ((texts.parseRuneId str).bind P.entry).map (runeEntry texts cur str)

/-- The answers of `get_rune`: the entry with the name, if there is one. -/
inductive RuneAnswer (str : String) : Option Interface.RuneEntry → Prop
  | known {sr : SpacedRune} {id : RuneId} {e : RuneEntry}
      (hstr : texts.parseSpacedRune str = some sr) (he : P.entry id = some e)
      (hrune : e.spacedRune.rune = sr.rune) :
      RuneAnswer str (some (runeEntry texts cur (texts.printRuneId id) e))
  | unknown (h : ∀ sr, texts.parseSpacedRune str = some sr → ¬ P.Named sr.rune) :
      RuneAnswer str none

/-- The answers of `get_etching`: the rune that the transaction etched, if it did. -/
inductive EtchingAnswer (str : String) : Option Interface.GetEtchingResult → Prop
  | etched {txid : Txid} {id : RuneId} {e : RuneEntry} (hstr : texts.parseTxid str = some txid)
      (he : P.entry id = some e) (hetching : e.etching = txid) :
      EtchingAnswer str (some ⟨confirmations cur e.block, texts.printRuneId id⟩)
  | unetched (h : ∀ txid id e, texts.parseTxid str = some txid → P.entry id = some e →
      e.etching ≠ txid) : EtchingAnswer str none

/-- `v` reports the balance `b` at an outpoint of a transaction in the block at `height`. -/
def Report (height : Nat) (b : RuneBalance) (v : Interface.RuneBalance) : Prop :=
  ∃ e, P.entry b.runeId = some e ∧ v = {
    confirmations := confirmations cur height
    runeId := texts.printRuneId b.runeId
    amount := b.balance
    divisibility := e.divisibility
    symbol := e.symbol.map Char.toString }

/-- The answers of `get_rune_balances_for_outputs` for one outpoint: every positive balance
    of it once, with the confirmations of its transaction. -/
inductive Pile (str : String) : Option (List Interface.RuneBalance) → Prop
  | malformed (h : texts.parseOutPoint str = none) : Pile str none
  | empty {o : OutPoint} (hstr : texts.parseOutPoint str = some o)
      (hempty : ∀ id, P.balance o id = 0) : Pile str none
  | held {o : OutPoint} {l : RuneBalances} {height : Nat} {vs : List Interface.RuneBalance}
      (hstr : texts.parseOutPoint str = some o) (hlists : Lists l (P.balance o)) (hne : l ≠ [])
      (hheight : P.height o.txid = some height)
      (hvs : List.Forall₂ (P.Report texts cur height) l vs) : Pile str (some vs)

end answers

end Protocol

/-! ### The answers of a store -/

namespace Store.Represents

variable {s : Store} {P : Protocol} {texts : Texts} {cur : Nat}

theorem getRuneById (h : s.Represents P) (hcur : s.memLatestBlockHeight = some cur)
    (str : String) : Query.getRuneById texts str s = .ok (P.runeById texts cur str) := by
  unfold Protocol.runeById
  cases hstr : texts.parseRuneId str with
  | none =>
    unfold Query.getRuneById
    rw [hstr]
    rfl
  | some id =>
    rw [Option.bind_some]
    cases he : P.entry id with
    | none => exact getRuneById_none hstr ((h.entries id).trans he)
    | some e => exact getRuneById_some hstr ((h.entries id).trans he) hcur

theorem getRune (h : s.Represents P) (hcur : s.memLatestBlockHeight = some cur)
    (str : String) :
    ∃ answer, Query.getRune texts str s = .ok answer ∧ P.RuneAnswer texts cur str answer := by
  unfold Query.getRune Store.memGetRuneToRuneId Store.memGetRuneIdToRuneEntry
  cases hstr : texts.parseSpacedRune str with
  | none =>
    refine ⟨none, rfl, .unknown fun sr hsr => ?_⟩
    rw [hstr] at hsr
    cases hsr
  | some sr =>
    dsimp only
    cases hid : s.runeToRuneId.get? sr.rune with
    | none =>
      refine ⟨none, rfl, .unknown fun sr' hsr hnamed => ?_⟩
      rw [hstr] at hsr
      cases hsr
      obtain ⟨id, e, he, hrune⟩ := hnamed
      rw [(h.names _ id).mpr ⟨e, he, hrune⟩] at hid
      cases hid
    | some id =>
      obtain ⟨e, he, hrune⟩ := (h.names _ id).mp hid
      dsimp only
      rw [h.entries, he]
      dsimp only
      rw [curHeight_of_latest hcur]
      exact ⟨_, rfl, .known hstr he hrune⟩

theorem getEtching (h : s.Represents P) (hcur : s.memLatestBlockHeight = some cur)
    (str : String) :
    ∃ answer, Query.getEtching texts str s = .ok answer ∧
      P.EtchingAnswer texts cur str answer := by
  unfold Query.getEtching
  cases hstr : texts.parseTxid str with
  | none =>
    refine ⟨none, rfl, .unetched fun txid id e htxid => ?_⟩
    rw [hstr] at htxid
    cases htxid
  | some txid =>
    dsimp only
    rw [curHeight_of_latest hcur]
    cases hetching : s.memGetEtching txid with
    | none =>
      refine ⟨none, rfl, .unetched fun txid' id e htxid he heq => ?_⟩
      rw [hstr] at htxid
      cases htxid
      rw [(h.etchings txid id e).mpr ⟨he, heq⟩] at hetching
      cases hetching
    | some found =>
      obtain ⟨id, e⟩ := found
      obtain ⟨he, heq⟩ := (h.etchings txid id e).mp hetching
      exact ⟨_, rfl, .etched hstr he heq⟩

/-- Balances of the protocol are all reported. -/
theorem reports (h : s.Represents P) {height : Nat} {l : RuneBalances}
    (hknown : ∀ b ∈ l, (P.entry b.runeId).isSome) :
    List.Forall₂ (P.Report texts cur height) l
      (l.filterMap (runeBalance texts s (confirmations cur height))) := by
  induction l with
  | nil => exact .nil
  | cons b l ih =>
    obtain ⟨e, he⟩ := Option.isSome_iff_exists.mp (hknown b List.mem_cons_self)
    have hb : runeBalance texts s (confirmations cur height) b = some {
        confirmations := confirmations cur height
        runeId := texts.printRuneId b.runeId
        amount := b.balance
        divisibility := e.divisibility
        symbol := e.symbol.map Char.toString } := by
      unfold runeBalance Store.memGetRuneIdToRuneEntry
      rw [h.entries, he]
      rfl
    rw [List.filterMap_cons_some hb]
    exact .cons ⟨e, he, rfl⟩ (ih fun b' hb' => hknown b' (List.mem_cons_of_mem _ hb'))

theorem pile (h : s.Represents P) (str : String) :
    P.Pile texts cur str (Query.pile texts s cur str) := by
  unfold Query.pile Store.memGetOutpointToRuneBalances Store.memGetOutpointToHeight
  cases hstr : texts.parseOutPoint str with
  | none => exact .malformed hstr
  | some o =>
    dsimp only
    cases hl : s.outpointToRuneBalances.get? o with
    | none => exact .empty hstr (h.absent o hl)
    | some l =>
      obtain ⟨hne, hlists⟩ := h.stored o l hl
      obtain ⟨height, hheight, hP⟩ := h.heights o (by rw [hl]; rfl)
      dsimp only
      rw [hheight]
      refine .held hstr hlists hne hP (h.reports fun b hb => ?_)
      exact h.known o b.runeId (((hlists.mem b.runeId b.balance).mp hb).2 ▸
        ((hlists.mem b.runeId b.balance).mp hb).1)

theorem getRuneBalancesForOutputs (h : s.Represents P)
    (hcur : s.memLatestBlockHeight = some cur) {strs : List String}
    (hlen : strs.length ≤ maxOutpoints) :
    ∃ answers, Query.getRuneBalancesForOutputs texts strs s = .ok (.ok answers) ∧
      List.Forall₂ (P.Pile texts cur) strs answers := by
  refine ⟨strs.map (Query.pile texts s cur), ?_, ?_⟩
  · unfold Query.getRuneBalancesForOutputs
    rw [if_neg (by omega), curHeight_of_latest hcur]
    rfl
  · rw [List.forall₂_map_right_iff]
    exact List.forall₂_same.mpr fun str _ => h.pile str

end Store.Represents

/-! ### Runs -/

/-- Along every run that holds a block, with a node that reports the spent outputs as the
    chain has them, each query answers what the protocol makes of the chain that is held. -/
theorem Run.answers_protocol {lib : Crates} {network : BitcoinNetwork} {node : Node}
    {views : List BlockData → ChainView} {admits : List BlockData → Prop}
    {chain : List BlockData} {b : BlockData} {s : Store} (texts : Texts)
    (print : BlockHash → String) (hres : ReservedNames lib)
    (hdistinct : ∀ chain, admits chain → DistinctTxids chain)
    (hreports : node.Reports lib network views admits) (hlast : chain.getLast? = some b)
    (h : Run lib network node admits chain s) :
    Query.getLatestBlock lib print s = .ok (lib.firstRuneHeight network + (chain.length - 1),
      print (lib.blockHash b.header)) ∧
    (∀ str, Query.getRuneById texts str s = .ok ((Protocol.after lib network views chain).runeById
      texts (lib.firstRuneHeight network + (chain.length - 1)) str)) ∧
    (∀ str, ∃ answer, Query.getRune texts str s = .ok answer ∧
      (Protocol.after lib network views chain).RuneAnswer texts
        (lib.firstRuneHeight network + (chain.length - 1)) str answer) ∧
    (∀ str, ∃ answer, Query.getEtching texts str s = .ok answer ∧
      (Protocol.after lib network views chain).EtchingAnswer texts
        (lib.firstRuneHeight network + (chain.length - 1)) str answer) ∧
    ∀ strs, strs.length ≤ maxOutpoints →
      ∃ answers, Query.getRuneBalancesForOutputs texts strs s = .ok (.ok answers) ∧
        List.Forall₂ ((Protocol.after lib network views chain).Pile texts
          (lib.firstRuneHeight network + (chain.length - 1))) strs answers := by
  have hrefines := (h.means hres hdistinct hreports).represents (h.reloaded hres hdistinct)
  obtain ⟨lo, hwin⟩ := h.window
  have hne : chain ≠ [] := by
    intro hnil
    rw [hnil] at hlast
    cases hlast
  have hcur : s.memLatestBlockHeight =
      some (lib.firstRuneHeight network + (chain.length - 1)) := by
    rw [hwin.latestHeight, if_neg hne]
  exact ⟨(h.getLatestBlock print).2 b hlast, hrefines.getRuneById hcur, hrefines.getRune hcur,
    hrefines.getEtching hcur, fun strs hlen => hrefines.getRuneBalancesForOutputs hcur hlen⟩

/-- Texts with one outpoint. -/
def Sample.outpointTexts : Texts :=
  { Sample.texts with parseOutPoint := fun str => if str = "1:1" then some ⟨1, 1⟩ else none }

theorem Run.answers_protocol_sample :
    ∃ s answer, Run Sample.crates .regtest Sample.answers Sample.FirstOutputs
        Sample.namingChain s ∧
      Query.getRuneBalancesForOutputs Sample.outpointTexts ["1:1"] s = .ok (.ok [answer]) ∧
      (Protocol.after Sample.crates .regtest (fun _ => Sample.view) Sample.namingChain).Pile
        Sample.outpointTexts 6 "1:1" answer := by
  obtain ⟨s, hrun, -⟩ := Sample.naming_exec (P := fun _ => true) (by decide)
  obtain ⟨-, -, -, -, hbalances⟩ := Run.answers_protocol Sample.outpointTexts (fun _ => "")
    reservedNames_sample (fun _ hadmits => hadmits.1) Sample.answers_report
    (show Sample.namingChain.getLast? = some Sample.lateBlock from rfl) hrun
  obtain ⟨answers, hanswers, hpiles⟩ := hbalances ["1:1"] (by decide)
  cases hpiles with
  | cons hpile hrest =>
    cases hrest
    exact ⟨s, _, hrun, hanswers, hpile⟩

end RunesIndexer
