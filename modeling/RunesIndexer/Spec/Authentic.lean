import RunesIndexer.Lib.Merkle
import RunesIndexer.Lib.Trace
import RunesIndexer.Model.Sample

/-! # What `get_block` verifies

    `get_block` compares the hash of the header and the root of the transaction ids. So
    all that a transaction id commits to comes from the chain: between two answers that are
    accepted for one hash only the witnesses can differ, and the number of transactions if
    one of the answers repeats ids or has a transaction that reads like a pair of hashes.
-/

namespace RunesIndexer

open Resumption

/-! ### Transactions without witnesses -/

/-- The part of a transaction that its id commits to. -/
def Transaction.stripped (tx : Transaction) : Transaction :=
  { tx with input := tx.input.map fun input => { input with witness := [] } }

/-- What `tx_commits_to_rune` reads besides the outpoints. -/
def Transaction.witnesses (tx : Transaction) : List Witness := tx.input.map TxIn.witness

theorem TxIn.list_eq {l₁ l₂ : List TxIn}
    (h : (l₁.map fun input => { input with witness := [] }) =
      l₂.map fun input => { input with witness := [] })
    (hw : l₁.map TxIn.witness = l₂.map TxIn.witness) : l₁ = l₂ := by
  induction l₁ generalizing l₂ with
  | nil => exact (List.map_eq_nil_iff.mp hw.symm).symm
  | cons input₁ l₁ ih =>
    obtain ⟨input₂, l₂, rfl, hw₁, hw₂⟩ := List.map_eq_cons_iff.mp hw.symm
    obtain ⟨hhead, htail⟩ := List.cons.inj h
    rw [ih htail hw₂.symm]
    obtain ⟨o₁, sig₁, seq₁, w₁⟩ := input₁
    obtain ⟨o₂, sig₂, seq₂, w₂⟩ := input₂
    cases hhead
    cases hw₁
    rfl

/-- The two parts make the transaction. -/
theorem Transaction.eq_of_stripped {tx₁ tx₂ : Transaction} (h : tx₁.stripped = tx₂.stripped)
    (hw : tx₁.witnesses = tx₂.witnesses) : tx₁ = tx₂ := by
  obtain ⟨version₁, lockTime₁, input₁, output₁, _⟩ := tx₁
  obtain ⟨version₂, lockTime₂, input₂, output₂, _⟩ := tx₂
  simp only [Transaction.stripped, Transaction.mk.injEq] at h
  obtain ⟨rfl, rfl, hinput, rfl⟩ := h
  rw [TxIn.list_eq hinput hw]

theorem Transaction.list_eq {l₁ l₂ : List Transaction}
    (h : l₁.map Transaction.stripped = l₂.map Transaction.stripped)
    (hw : l₁.map Transaction.witnesses = l₂.map Transaction.witnesses) : l₁ = l₂ := by
  induction l₁ generalizing l₂ with
  | nil => exact (List.map_eq_nil_iff.mp hw.symm).symm
  | cons tx₁ l₁ ih =>
    obtain ⟨tx₂, l₂, rfl, hw₁, hw₂⟩ := List.map_eq_cons_iff.mp hw.symm
    obtain ⟨hhead, htail⟩ := List.cons.inj h
    rw [Transaction.eq_of_stripped hhead hw₁.symm, ih htail hw₂.symm]

/-! ### Hashes -/

/-- How the `bitcoin` crate identifies headers and transactions: by the double SHA256 of a
    message. A message is a string of bytes; of these only the following matters. -/
structure Hashing (lib : Crates) (M : Type) where
  sha256d : M → BitVec 256
  /-- The encoding of a header -/
  header : Header → M
  /-- The encoding of a transaction without its witnesses -/
  transaction : Transaction → M
  /-- Two hashes one after the other -/
  pair : BitVec 256 × BitVec 256 → M
  header_injective : Function.Injective header
  transaction_eq_iff : ∀ tx₁ tx₂, transaction tx₁ = transaction tx₂ ↔ tx₁.stripped = tx₂.stripped
  pair_injective : Function.Injective pair
  blockHash_eq : ∀ h, lib.blockHash h = sha256d (header h)
  computeTxid_eq : ∀ tx, lib.computeTxid tx = sha256d (transaction tx)
  checkMerkleRoot_iff : ∀ b, lib.checkMerkleRoot b = true ↔
    Merkle.root (fun p => sha256d (pair p)) (b.txdata.map lib.computeTxid) =
      some b.header.merkleRoot

/-- The ids whose root is the one in the header. -/
def Block.txids (lib : Crates) (b : Block) : List Txid := b.txdata.map lib.computeTxid

namespace Hashing

variable {lib : Crates} {M : Type} (H : Hashing lib M)

/-- A node of the tree of transaction ids. -/
def node (p : BitVec 256 × BitVec 256) : BitVec 256 := H.sha256d (H.pair p)

/-- The messages that are hashed to check a block. -/
def messages (b : Block) : Set M :=
  {m | m = H.header b.header ∨ (∃ tx ∈ b.txdata, m = H.transaction tx) ∨
    ∃ p, Merkle.Hashed H.node (b.txids lib) p ∧ m = H.pair p}

/-- Checking the two blocks reveals no collision of the hash function. -/
def NoCollision (b₁ b₂ : Block) : Prop := (H.messages b₁ ∪ H.messages b₂).InjOn H.sha256d

/-- No transaction reads like two hashes one after the other; it would have 64 bytes. -/
def NoPair (b : Block) : Prop := ∀ tx ∈ b.txdata, ∀ p, H.transaction tx ≠ H.pair p

theorem stripped_of_messages {l₁ l₂ : List Transaction}
    (h : l₁.map H.transaction = l₂.map H.transaction) :
    l₁.map Transaction.stripped = l₂.map Transaction.stripped := by
  induction l₁ generalizing l₂ with
  | nil => rw [List.map_eq_nil_iff.mp h.symm]
  | cons tx₁ l₁ ih =>
    obtain ⟨tx₂, l₂, rfl, hhead, htail⟩ := List.map_eq_cons_iff.mp h.symm
    rw [List.map_cons, List.map_cons, (H.transaction_eq_iff tx₂ tx₁).mp hhead, ih htail.symm]

variable {H} {b₁ b₂ : Block}

theorem NoCollision.symm (h : H.NoCollision b₁ b₂) : H.NoCollision b₂ b₁ := by
  unfold NoCollision at *
  rwa [Set.union_comm]

/-- The header behind a hash. -/
theorem NoCollision.header_eq (h : H.NoCollision b₁ b₂)
    (hhash : lib.blockHash b₁.header = lib.blockHash b₂.header) : b₁.header = b₂.header := by
  rw [H.blockHash_eq, H.blockHash_eq] at hhash
  exact H.header_injective (h (.inl (.inl rfl)) (.inr (.inl rfl)) hhash)

/-- The transactions behind their ids, as far as they go. -/
theorem NoCollision.stripped_eq (h : H.NoCollision b₁ b₂) (hids : b₁.txids lib = b₂.txids lib) :
    b₁.txdata.map Transaction.stripped = b₂.txdata.map Transaction.stripped := by
  have hid : lib.computeTxid = H.sha256d ∘ H.transaction := funext H.computeTxid_eq
  unfold Block.txids at hids
  rw [hid, ← List.map_map, ← List.map_map] at hids
  have hmessages : b₁.txdata.map H.transaction = b₂.txdata.map H.transaction := by
    refine Merkle.eq_of_map_eq_of_injOn h (fun m hm => ?_) (fun m hm => ?_) hids
    · obtain ⟨tx, htx, rfl⟩ := List.mem_map.mp hm
      exact .inl (.inr (.inl ⟨tx, htx, rfl⟩))
    · obtain ⟨tx, htx, rfl⟩ := List.mem_map.mp hm
      exact .inr (.inr (.inl ⟨tx, htx, rfl⟩))
  exact H.stripped_of_messages hmessages

/-- The pairs that are hashed for either block. -/
theorem NoCollision.nodes_injOn (h : H.NoCollision b₁ b₂) :
    Set.InjOn H.node {p | Merkle.Hashed H.node (b₁.txids lib) p ∨
      Merkle.Hashed H.node (b₂.txids lib) p} := by
  intro p hp q hq heq
  have hmem : ∀ x, Merkle.Hashed H.node (b₁.txids lib) x ∨ Merkle.Hashed H.node (b₂.txids lib) x →
      H.pair x ∈ H.messages b₁ ∪ H.messages b₂ := by
    intro x hx
    rcases hx with hx | hx
    · exact .inl (.inr (.inr ⟨x, hx, rfl⟩))
    · exact .inr (.inr (.inr ⟨x, hx, rfl⟩))
  exact H.pair_injective (h (hmem p hp) (hmem q hq) heq)

/-- Equally many ids with one root. -/
theorem NoCollision.txids_eq (h : H.NoCollision b₁ b₂)
    (hlength : b₁.txdata.length = b₂.txdata.length)
    (hroot : Merkle.root H.node (b₁.txids lib) = Merkle.root H.node (b₂.txids lib)) :
    b₁.txids lib = b₂.txids lib := by
  have hlength' : (b₁.txids lib).length = (b₂.txids lib).length := by
    rw [Block.txids, Block.txids, List.length_map, List.length_map, hlength]
  have hlike : Merkle.Comparable (b₁.txids lib) (b₂.txids lib) :=
    ⟨congrArg (Nat.clog 2) hlength', .inl hlength'⟩
  exact hlike.eq_of_root_eq H.node (fun _ => .inl) (fun _ => .inr) h.nodes_injOn hroot

/-- A transaction id that is a node is the id of a pair. -/
theorem NoCollision.leaf_ne (h : H.NoCollision b₁ b₂) (hpair : H.NoPair b₁) :
    ∀ a ∈ b₁.txids lib, ∀ p, Merkle.Hashed H.node (b₂.txids lib) p → a ≠ H.node p := by
  intro a ha p hp heq
  obtain ⟨tx, htx, rfl⟩ := List.mem_map.mp ha
  rw [H.computeTxid_eq] at heq
  exact hpair tx htx p (h (.inl (.inr (.inl ⟨tx, htx, rfl⟩))) (.inr (.inr (.inr ⟨p, hp, rfl⟩))) heq)

/-- Different ids with one root. -/
theorem NoCollision.txids_eq_of_nodup (h : H.NoCollision b₁ b₂) (hne₁ : b₁.txids lib ≠ [])
    (hne₂ : b₂.txids lib ≠ []) (hn₁ : (b₁.txids lib).Nodup) (hn₂ : (b₂.txids lib).Nodup)
    (hpair₁ : H.NoPair b₁) (hpair₂ : H.NoPair b₂)
    (hroot : Merkle.root H.node (b₁.txids lib) = Merkle.root H.node (b₂.txids lib)) :
    b₁.txids lib = b₂.txids lib :=
  Merkle.eq_of_root_eq H.node hne₁ hne₂ hn₁ hn₂ (fun _ => .inl) (fun _ => .inr) h.nodes_injOn
    (h.leaf_ne hpair₁) (h.symm.leaf_ne hpair₂) hroot

end Hashing

/-! ### Accepted answers -/

section

variable {lib : Crates}

/-- The checks of `get_block` on its answer. -/
theorem getBlock_run (hash : BlockHash) (s : Store) :
    (getBlock lib hash).run s = .await s (.innerGetBlock hash)
      fun (reply : Except Error Block) s' =>
        match reply with
        | .error e => .err s' e
        | .ok b =>
          if lib.blockHash b.header ≠ hash then .err s' (.wrongBlockHash hash)
          else if lib.checkMerkleRoot b then .ok s' (BlockData.ofBlock lib b)
          else .err s' (.wrongMerkleRoot hash) := by
  unfold getBlock
  show Proc.await s _ _ = _
  congr 1
  funext reply s'
  rcases reply with e | b
  · rfl
  · show (ite (lib.blockHash b.header ≠ hash) _ _ : AsyncM BlockData).run s' = _
    dsimp only
    by_cases hhash : lib.blockHash b.header ≠ hash
    · rw [if_pos hhash, if_pos hhash]
      rfl
    rw [if_neg hhash, if_neg hhash]
    by_cases hroot : lib.checkMerkleRoot b = true
    · rw [if_pos hroot, if_pos hroot]
      rfl
    · rw [if_neg hroot, if_neg hroot]
      rfl

/-- `get_block` accepts an answer whose header has the hash and the root of its ids. -/
theorem getBlock_via {ans : Answers} {hash : BlockHash} {s s' : Store} {b : Block}
    {d : BlockData} :
    Proc.RunsVia ans ((getBlock lib hash).run s)
      [⟨.innerGetBlock hash, (.ok b : Except Error Block)⟩] (.ok s' d) ↔
    ans (.innerGetBlock hash) (.ok b : Except Error Block) ∧ s' = s ∧
      lib.blockHash b.header = hash ∧ lib.checkMerkleRoot b = true ∧
      d = BlockData.ofBlock lib b := by
  rw [getBlock_run]
  constructor
  · intro h
    obtain ⟨reply, l, hans, hl, hr⟩ := Proc.runsVia_await.mp h
    obtain ⟨hq, rfl⟩ := List.cons.inj hl
    cases hq
    dsimp only at hr
    -- the two checks, in the order of the source
    by_cases hhash : lib.blockHash b.header ≠ hash
    · rw [if_pos hhash] at hr
      cases (Proc.runsVia_err.mp hr).2
    by_cases hroot : lib.checkMerkleRoot b = true
    · rw [if_neg hhash, if_pos hroot] at hr
      cases (Proc.runsVia_ok.mp hr).2
      exact ⟨hans, rfl, not_not.mp hhash, hroot, rfl⟩
    · rw [if_neg hhash, if_neg hroot] at hr
      cases (Proc.runsVia_err.mp hr).2
  · rintro ⟨hans, rfl, hhash, hroot, rfl⟩
    refine .await hans ?_
    dsimp only
    rw [if_neg (not_not.mpr hhash), if_pos hroot]
    exact .ok _ _

/-- Two answers that are accepted for one hash are the same block if they have the same
    witnesses, transaction by transaction. In any case they have one header, and up to
    witnesses the same transactions if neither repeats an id or has a transaction that
    reads like a pair of hashes. -/
theorem getBlock_authentic {M : Type} (H : Hashing lib M) {ans : Answers} {hash : BlockHash}
    {s₁ s₁' s₂ s₂' : Store} {b₁ b₂ : Block} {d₁ d₂ : BlockData}
    (h₁ : Proc.RunsVia ans ((getBlock lib hash).run s₁)
      [⟨.innerGetBlock hash, (.ok b₁ : Except Error Block)⟩] (.ok s₁' d₁))
    (h₂ : Proc.RunsVia ans ((getBlock lib hash).run s₂)
      [⟨.innerGetBlock hash, (.ok b₂ : Except Error Block)⟩] (.ok s₂' d₂))
    (hfree : H.NoCollision b₁ b₂) :
    (d₁ = d₂ ↔ b₁.txdata.map Transaction.witnesses = b₂.txdata.map Transaction.witnesses) ∧
    d₁.header = d₂.header ∧
    ((b₁.txids lib).Nodup → (b₂.txids lib).Nodup → H.NoPair b₁ → H.NoPair b₂ →
      b₁.txdata.map Transaction.stripped = b₂.txdata.map Transaction.stripped) := by
  obtain ⟨-, -, hhash₁, hroot₁, rfl⟩ := getBlock_via.mp h₁
  obtain ⟨-, -, hhash₂, hroot₂, rfl⟩ := getBlock_via.mp h₂
  -- both headers have the hash, so they are one header with one root
  have hheader := hfree.header_eq (hhash₁.trans hhash₂.symm)
  have hroot₁' := (H.checkMerkleRoot_iff b₁).mp hroot₁
  have hroot₂' := (H.checkMerkleRoot_iff b₂).mp hroot₂
  have hroot : Merkle.root H.node (b₁.txids lib) = Merkle.root H.node (b₂.txids lib) :=
    hroot₁'.trans ((congrArg (fun h => some h.merkleRoot) hheader).trans hroot₂'.symm)
  refine ⟨⟨fun h => ?_, fun hw => ?_⟩, hheader, fun hn₁ hn₂ hpair₁ hpair₂ => ?_⟩
  · have hdata := congrArg (fun d => d.txdata.map Prod.fst) h
    simp only [BlockData.ofBlock, List.map_map, Function.comp_def, List.map_id'] at hdata
    rw [hdata]
  -- with equal witnesses there are equally many transactions, and the root fixes their ids
  · have hlength : b₁.txdata.length = b₂.txdata.length := by
      rw [← List.length_map Transaction.witnesses, hw, List.length_map]
    have hdata := Transaction.list_eq (hfree.stripped_eq (hfree.txids_eq hlength hroot)) hw
    obtain ⟨header₁, txdata₁, fits₁⟩ := b₁
    obtain ⟨header₂, txdata₂, fits₂⟩ := b₂
    cases hheader
    cases hdata
    rfl
  -- without repetitions the root fixes how many transactions there are
  · have hne : ∀ {b : Block} {r : BitVec 256}, Merkle.root H.node (b.txids lib) = some r →
        b.txids lib ≠ [] := by
      intro b r hr hnil
      rw [hnil, Merkle.root] at hr
      cases hr
    exact hfree.stripped_eq (hfree.txids_eq_of_nodup (hne hroot₁') (hne hroot₂') hn₁ hn₂
      hpair₁ hpair₂ hroot)

/-- The number of transactions is not fixed: where it is odd, the last one may come twice. -/
theorem getBlock_repeats_last {M : Type} (H : Hashing lib M) {ans : Answers} {hash : BlockHash}
    {s s' : Store} {b b' : Block} {d : BlockData} {tx₁ tx₂ tx : Transaction}
    {txs : List Transaction} (hb : b.txdata = tx₁ :: tx₂ :: txs ++ [tx])
    (hodd : b.txdata.length % 2 = 1) (hb' : b'.txdata = b.txdata ++ [tx])
    (hheader : b'.header = b.header)
    (hans : ans (.innerGetBlock hash) (.ok b' : Except Error Block))
    (h : Proc.RunsVia ans ((getBlock lib hash).run s)
      [⟨.innerGetBlock hash, (.ok b : Except Error Block)⟩] (.ok s' d)) :
    Proc.RunsVia ans ((getBlock lib hash).run s)
      [⟨.innerGetBlock hash, (.ok b' : Except Error Block)⟩]
      (.ok s' (BlockData.ofBlock lib b')) := by
  obtain ⟨-, rfl, hhash, hroot, -⟩ := getBlock_via.mp h
  refine getBlock_via.mpr ⟨hans, rfl, hheader ▸ hhash, ?_, rfl⟩
  rw [H.checkMerkleRoot_iff, hb, List.map_append, List.map_cons, List.map_cons] at hroot
  have hodd' : (lib.computeTxid tx₁ :: lib.computeTxid tx₂ :: txs.map lib.computeTxid ++
      [lib.computeTxid tx]).length % 2 = 1 := by
    rw [hb] at hodd
    simpa using hodd
  rw [H.checkMerkleRoot_iff, hb', hb, List.map_append, List.map_append, List.map_cons,
    List.map_cons, hheader]
  exact (Merkle.root_repeat_last _ hodd').trans hroot

end

namespace Sample

/-! ### A block with a commitment -/

def coinbaseTx : Transaction :=
  ⟨2, 0, [⟨⟨0, 4294967295⟩, [0x51, 0x00], 4294967295, []⟩], [⟨5000000000, [0x51]⟩], by decide⟩

/-- `nameTx` with another witness. -/
def witnessedTx (witness : Witness) : Transaction := tx [spend 9 0 witness] [3, 7]

def coinbaseTxid : Txid := 0xb7892f76d1b3b327b8a0351123c5747c2b706384a45af28deac7b06edb506127#256

def witnessedTxid : Txid := 0xcf98ae40c72c14c248f7f246f3e731e1ab421b99c0db098226d5dfef1814000c#256

def witnessedHeader : Header where
  version := 536870912
  prevBlockhash := 0
  merkleRoot := 0x071f964194f536c6fbcbe43c359eb8a185c339ef9c302a51f488dcd177872f1c#256
  time := 1296689202
  bits := 545259519
  nonce := 1

def witnessedHash : BlockHash :=
  0x0a5e74e8daed82c1206bbac7ec3f49388f0b81cd2467aa2a5fdad1f06c724705#256

def witnessedBlock (witness : Witness) : Block where
  header := witnessedHeader
  txdata := [coinbaseTx, witnessedTx witness]
  txdataFits := show 2 < usizeBound by decide

/-- The messages of this block. -/
inductive Message where
  | header (h : Header)
  | transaction (tx : Transaction)
  | pair (p : BitVec 256 × BitVec 256)
  deriving DecidableEq

/-- Their double SHA256. -/
def sha256d (m : Message) : BitVec 256 :=
  if m = .header witnessedHeader then witnessedHash
  else if m = .transaction coinbaseTx then coinbaseTxid
  else if m = .transaction (witnessedTx []) then witnessedTxid
  else if m = .pair (coinbaseTxid, witnessedTxid) then witnessedHeader.merkleRoot
  else 0

def hashingCrates : Crates where
  __ := crates
  blockHash h := sha256d (.header h)
  computeTxid tx := sha256d (.transaction tx.stripped)
  checkMerkleRoot b := decide (Merkle.root (fun p => sha256d (.pair p))
    (b.txdata.map fun tx => sha256d (.transaction tx.stripped)) = some b.header.merkleRoot)

def hashing : Hashing hashingCrates Message where
  sha256d := sha256d
  header := .header
  transaction tx := .transaction tx.stripped
  pair := .pair
  header_injective _ _ h := Message.header.inj h
  transaction_eq_iff _ _ := Message.transaction.injEq _ _ ▸ Iff.rfl
  pair_injective _ _ h := Message.pair.inj h
  blockHash_eq _ := rfl
  computeTxid_eq _ := rfl
  checkMerkleRoot_iff _ := decide_eq_true_iff

theorem txids_witnessedBlock (witness : Witness) :
    (witnessedBlock witness).txids hashingCrates = [coinbaseTxid, witnessedTxid] := by
  have hcoinbase : sha256d (.transaction coinbaseTx.stripped) = coinbaseTxid := by decide
  have hwitnessed : sha256d (.transaction (witnessedTx []).stripped) = witnessedTxid := by decide
  exact congrArg₂ (fun a b => [a, b]) hcoinbase hwitnessed

theorem witnessedBlock_noCollision (witness witness' : Witness) :
    hashing.NoCollision (witnessedBlock witness) (witnessedBlock witness') := by
  have hmessages : ∀ w, hashing.messages (witnessedBlock w) ⊆ {m | m ∈
      [Message.header witnessedHeader, .transaction coinbaseTx, .transaction (witnessedTx []),
        .pair (coinbaseTxid, witnessedTxid)]} := by
    intro w m hm
    rcases hm with rfl | ⟨tx, htx, rfl⟩ | ⟨p, hp, rfl⟩
    · exact List.mem_cons_self
    · rcases List.mem_cons.mp htx with rfl | htx
      · exact List.mem_cons_of_mem _ List.mem_cons_self
      · rw [List.mem_singleton.mp htx]
        exact List.mem_cons_of_mem _ (List.mem_cons_of_mem _ List.mem_cons_self)
    · rw [txids_witnessedBlock] at hp
      rw [Merkle.hashed_two _ hp]
      exact List.mem_cons_of_mem _ (List.mem_cons_of_mem _
        (List.mem_cons_of_mem _ List.mem_cons_self))
  have hdistinct : ∀ m ∈ [Message.header witnessedHeader, .transaction coinbaseTx,
      .transaction (witnessedTx []), .pair (coinbaseTxid, witnessedTxid)],
      ∀ m' ∈ [Message.header witnessedHeader, .transaction coinbaseTx,
        .transaction (witnessedTx []), .pair (coinbaseTxid, witnessedTxid)],
      sha256d m = sha256d m' → m = m' := by decide
  intro m hm m' hm' heq
  exact hdistinct m (hm.elim (hmessages _ ·) (hmessages _ ·)) m'
    (hm'.elim (hmessages _ ·) (hmessages _ ·)) heq

/-- Whatever the witness, the block is accepted. -/
theorem witnessedBlock_accepted (witness : Witness) (s : Store) :
    Proc.RunsVia (fun _ _ => True) ((getBlock hashingCrates witnessedHash).run s)
      [⟨.innerGetBlock witnessedHash, (.ok (witnessedBlock witness) : Except Error Block)⟩]
      (.ok s (BlockData.ofBlock hashingCrates (witnessedBlock witness))) := by
  have hhash : hashingCrates.blockHash witnessedHeader = witnessedHash := by decide
  have hroot : hashing.sha256d (.pair (coinbaseTxid, witnessedTxid)) =
      witnessedHeader.merkleRoot := by decide
  refine getBlock_via.mpr ⟨trivial, rfl, hhash, (hashing.checkMerkleRoot_iff _).mpr ?_, rfl⟩
  rw [show (witnessedBlock witness).txdata.map hashingCrates.computeTxid = _ from
    txids_witnessedBlock witness, Merkle.root_two]
  exact congrArg some hroot

theorem witnessedBlock_noPair (witness : Witness) : hashing.NoPair (witnessedBlock witness) :=
  fun _ _ _ h => Message.noConfusion h

end Sample

/-- One block, answered with its witness and without. -/
theorem getBlock_authentic_sample :
    (BlockData.ofBlock Sample.hashingCrates (Sample.witnessedBlock [[7]]) =
        BlockData.ofBlock Sample.hashingCrates (Sample.witnessedBlock []) ↔
      (Sample.witnessedBlock [[7]]).txdata.map Transaction.witnesses =
        (Sample.witnessedBlock []).txdata.map Transaction.witnesses) ∧
    (Sample.witnessedBlock [[7]]).txdata.map Transaction.stripped =
      (Sample.witnessedBlock []).txdata.map Transaction.stripped := by
  have hnodup : ∀ w, ((Sample.witnessedBlock w).txids Sample.hashingCrates).Nodup := by
    intro w
    rw [Sample.txids_witnessedBlock]
    decide
  have h := getBlock_authentic Sample.hashing
    (Sample.witnessedBlock_accepted [[7]] (Store.empty Config.default))
    (Sample.witnessedBlock_accepted [] (Store.empty Config.default))
    (Sample.witnessedBlock_noCollision [[7]] [])
  exact ⟨h.1, h.2.2 (hnodup _) (hnodup _) (Sample.witnessedBlock_noPair _)
    (Sample.witnessedBlock_noPair _)⟩

/-- Without the witness the block is accepted too, but nothing commits to the rune anymore. -/
theorem getBlock_drops_witness :
    ∃ d₁ d₂ : BlockData, ∃ s : Store,
      Proc.RunsVia (fun _ _ => True) ((getBlock Sample.hashingCrates Sample.witnessedHash).run s)
        [⟨.innerGetBlock Sample.witnessedHash,
          (.ok (Sample.witnessedBlock [[7]]) : Except Error Block)⟩] (.ok s d₁) ∧
      Proc.RunsVia (fun _ _ => True) ((getBlock Sample.hashingCrates Sample.witnessedHash).run s)
        [⟨.innerGetBlock Sample.witnessedHash,
          (.ok (Sample.witnessedBlock []) : Except Error Block)⟩] (.ok s d₂) ∧
      Sample.hashing.NoCollision (Sample.witnessedBlock [[7]]) (Sample.witnessedBlock []) ∧
      d₁.txids = d₂.txids ∧ d₁ ≠ d₂ := by
  refine ⟨_, _, Store.empty Config.default, Sample.witnessedBlock_accepted _ _,
    Sample.witnessedBlock_accepted _ _, Sample.witnessedBlock_noCollision _ _, by decide, ?_⟩
  intro h
  have hwitness := congrArg (fun d => d.txdata.map fun x => x.1.witnesses) h
  exact absurd hwitness (by decide)

end RunesIndexer
