import RunesIndexer.Model.Updater
import Mathlib.Data.List.Sort

/-! # A concrete environment

    One instance of the parameters of the model: an iteration order, namely by
    increasing rune id, and a small stand-in for the crates that reads the
    artifact of a transaction from the bytes of its first output. Results about
    all environments are instantiated here.
-/

namespace RunesIndexer

namespace Sample

/-! ### Iteration by rune id -/

/-- Order pairs by rune id, then by amount. -/
def pairLE (a b : RuneId × Nat) : Prop :=
  a.1.block < b.1.block ∨ a.1.block = b.1.block ∧
    (a.1.tx < b.1.tx ∨ a.1.tx = b.1.tx ∧ a.2 ≤ b.2)

instance : DecidableRel pairLE := fun a b => by unfold pairLE; infer_instance

theorem pairLE_trans (a b c : RuneId × Nat) (hab : pairLE a b) (hbc : pairLE b c) :
    pairLE a c := by
  unfold pairLE at *
  omega

theorem pairLE_antisymm (a b : RuneId × Nat) (hab : pairLE a b) (hba : pairLE b a) : a = b := by
  obtain ⟨⟨_, _⟩, _⟩ := a
  obtain ⟨⟨_, _⟩, _⟩ := b
  simp only [pairLE, Prod.mk.injEq, RuneId.mk.injEq] at *
  omega

theorem pairLE_total (a b : RuneId × Nat) : pairLE a b ∨ pairLE b a := by
  unfold pairLE
  omega

instance : IsTrans (RuneId × Nat) pairLE := ⟨pairLE_trans⟩
instance : Std.Antisymm pairLE := ⟨pairLE_antisymm⟩
instance : Std.Total pairLE := ⟨pairLE_total⟩

/-- The elements of a multiset in increasing order. -/
def sortPairs (m : Multiset (RuneId × Nat)) : List (RuneId × Nat) :=
  Quot.lift (fun l => l.insertionSort pairLE) (fun l l' h => by
    have hperm : (l.insertionSort pairLE).Perm (l'.insertionSort pairLE) :=
      ((l.perm_insertionSort pairLE).trans h).trans (l'.perm_insertionSort pairLE).symm
    exact hperm.eq_of_pairwise (fun a b _ _ => pairLE_antisymm a b)
      (l.pairwise_insertionSort pairLE) (l'.pairwise_insertionSort pairLE)) m

theorem coe_sortPairs (m : Multiset (RuneId × Nat)) :
    (sortPairs m : Multiset (RuneId × Nat)) = m := by
  induction m using Quot.inductionOn with
  | _ l => exact Multiset.coe_eq_coe.mpr (l.perm_insertionSort pairLE)

/-- Every hash map is walked through by increasing rune id. -/
def order : HashOrder where
  iter _ m := sortPairs m.toMultiset
  iter_perm _ m := coe_sortPairs m.toMultiset

/-! ### Crates -/

/-- `Rune::RESERVED` -/
def reservedBase : Nat := 6402364363415443603228541259936211926

/-- `Rune::STEPS`: the first name with one letter more. -/
def steps : Nat → Nat
  | 0 => 0
  | letters + 1 => 26 * (steps letters + 1)

/-- `Rune::first_rune_height`; the testnet is Testnet4. -/
def firstRuneHeight : BitcoinNetwork → Nat
  | .mainnet => 840000
  | _ => 0

/-- `Rune::minimum_at_height`: within twelve intervals the names get shorter by one letter in
    each of them. -/
def minimumAtHeight (network : BitcoinNetwork) (height : Nat) : Rune :=
  let offset := height + 1
  let start := firstRuneHeight network
  if offset < start then ⟨steps 12⟩
  else if start + 210000 ≤ offset then ⟨0⟩
  else
    let progress := offset - start
    let length := 12 - progress / 17500
    ⟨steps length - (steps length - steps (length - 1)) * (progress % 17500) / 17500⟩

/-- The bytes of a number, the lowest first, without the zeros at the end. -/
def littleEndian : Nat → Nat → List UInt8
  | 0, _ => []
  | fuel + 1, n => if n = 0 then [] else UInt8.ofNat (n % 256) :: littleEndian fuel (n / 256)

/-- `Rune::commitment` -/
def commitment (rune : Rune) : List UInt8 := littleEndian 16 rune.n

/-- A name of thirteen letters, which may be etched at any height. -/
def named (i : UInt8) : Rune := ⟨steps 12 + i.toNat⟩

def terms : Terms := ⟨some 5, some 2, (none, none), (none, none)⟩

/-- The artifact that the bytes after OP_RETURN (`0x6a`) in the first output stand for. -/
def artifactOf (outputs : Nat) : List UInt8 → Option Artifact
  -- etch a rune with a reserved name and a premine of 100
  | [1] => some (.runestone ⟨[], some ⟨none, some 100, none, none, none, some terms, false⟩,
      none, none⟩)
  -- mint
  | [2, block, tx] => some (.runestone ⟨[], none, some ⟨block.toNat, tx.toNat⟩, none⟩)
  -- etch a rune under a name
  | [3, i] => some (.runestone ⟨[], some ⟨none, none, some (named i), none, none, none,
      false⟩, none, none⟩)
  -- a cenotaph that mints
  | [4, block, tx] => some (.cenotaph ⟨none, some ⟨block.toNat, tx.toNat⟩⟩)
  -- divide a rune between the outputs
  | [5, block, tx] => some (.runestone ⟨[⟨⟨block.toNat, tx.toNat⟩, 0, outputs⟩], none, none, none⟩)
  -- give some units of a rune to the output before the last one, and the rest to the last
  | [6, block, tx, amount] => some (.runestone
      ⟨[⟨⟨block.toNat, tx.toNat⟩, amount.toNat, outputs - 2⟩], none, none, some (outputs - 1)⟩)
  | _ => none

def decipher (tx : Transaction) : Option Artifact :=
  match tx.output with
  | ⟨_, 0x6a :: bytes⟩ :: _ => artifactOf tx.output.length bytes
  | _ => none

def crates : Crates where
  decipher := decipher
  reserved block tx := ⟨reservedBase + block * 2 ^ 32 + tx⟩
  isReserved rune := reservedBase ≤ rune.n
  minimumAtHeight := minimumAtHeight
  firstRuneHeight := firstRuneHeight
  commitment := commitment
  commitConfirmations := 6
  isOpReturn script := script.head? = some 0x6a
  isP2tr script := script.head? = some 0x51
  tapscript witness := witness.head?
  instructions script := [.ok (.pushBytes script)]
  blockHash header := BitVec.ofNat 256 header.nonce
  computeTxid tx := BitVec.ofNat 256 tx.input.length
  checkMerkleRoot _ := true

/-- The input that spends output `vout` of transaction `txid`. -/
def spend (txid : Txid) (vout : Nat) (witness : Witness) : TxIn := ⟨⟨txid, vout⟩, [], 0, witness⟩

/-- An output that is neither OP_RETURN nor P2TR. -/
def plain : TxOut := ⟨546, [0]⟩

/-- A transaction with the given inputs whose artifact is given by `bytes`, and one
    more output. -/
def tx (input : List TxIn) (bytes : List UInt8) : Transaction :=
  ⟨2, 0, input, [⟨0, 0x6a :: bytes⟩, plain], by simp [usizeBound]⟩

/-- A transaction without an artifact. -/
def plainTx (input : List TxIn) : Transaction := ⟨2, 0, input, [plain], by decide⟩

/-- A transaction with two outputs next to an OP_RETURN. -/
def splitTx : Transaction := ⟨2, 0, [], [⟨0, [0x6a]⟩, plain, plain], by decide⟩

/-- A transaction that gives three units to one output and the rest to the other. -/
def edictTx : Transaction :=
  ⟨2, 0, [spend 9 0 []], [⟨0, [0x6a, 6, 5, 5, 3]⟩, plain, plain], by decide⟩

/-- A block whose hash is `hash` and that names `prev`. -/
def block (prev hash : Nat) (txdata : List (Transaction × Txid))
    (h : txdata.length < usizeBound) : BlockData :=
  ⟨⟨0, BitVec.ofNat 256 prev, 0, 0, 0, hash⟩, txdata, h⟩

def config : Config := Config.default

/-! ### A chain -/

/-- A rune is etched with a premine of 100 ... -/
def etchBlock : BlockData := block 0 1 [(tx [] [1], 1)] (by decide)

/-- ... and minted by the transaction that moves the premine. -/
def mintBlock : BlockData := block 1 2 [(tx [spend 1 1 []] [2, 0, 0], 2)] (by decide)

def chain : List BlockData := [etchBlock, mintBlock]

/-- The id of the rune. -/
def runeId : RuneId := ⟨0, 0⟩

/-- The updater of the block at height 0. -/
def updater : RuneUpdater := RuneUpdater.new crates .regtest 0 0 0

/-- A store in which an outpoint holds seven units of another rune. -/
def holding : Store :=
  ((Store.empty config).memInsertOutpointToRuneBalances ⟨9, 0⟩
    [⟨⟨5, 5⟩, 7⟩]).memInsertOutpointToHeight ⟨9, 0⟩ 0

/-! ### A node -/

/-- The block with hash `height + 1` on top of the one with hash `height`, in which a
    rune is etched under a reserved name. -/
def minedBlock (height : Nat) : Block where
  header := ⟨0, BitVec.ofNat 256 height, 0, 0, 0, height + 1⟩
  txdata := [tx (List.replicate height (spend 9 0 [])) [1]]
  txdataFits := by simp [usizeBound]

/-- A node whose chain has one such block at every height and that refuses the calls
    about transactions. -/
def reply : (q : Call) → Reply q
  | .getBlockHash _ height => (.ok (some (BitVec.ofNat 256 (height + 1))) :
      Except Error (Option BlockHash))
  | .innerGetBlock hash => (.ok (minedBlock (hash.toNat - 1)) : Except Error Block)
  | .getRawTransactionInfo _ => (.error .rpc : Except Error RawTransaction)
  | .getBlockHeaderInfo _ => (.error .rpc : Except Error Nat)
  | .newBlockDetected .. => (.ok () : Except Error Unit)

/-- The same node once it answers those calls too: every output is a P2TR output in a
    block at height 0. -/
def answer : (q : Call) → Reply q
  | .getRawTransactionInfo txid => (.ok ⟨txid, [.ok [0x51]], some 0⟩ : Except Error RawTransaction)
  | .getBlockHeaderInfo _ => (.ok 0 : Except Error Nat)
  | q => reply q

/-- A block with one transaction, which has `inputs` inputs and no artifact. -/
def plainBlock (prev hash inputs : Nat) : Block where
  header := ⟨0, BitVec.ofNat 256 prev, 0, 0, 0, hash⟩
  txdata := [plainTx (List.replicate inputs (spend 9 0 []))]
  txdataFits := by simp [usizeBound]

/-- A node that has these blocks, from height 0 on. -/
def serving (blocks : List Block) : (q : Call) → Reply q
  | .getBlockHash _ height => (.ok ((blocks[height]?).map fun b => crates.blockHash b.header) :
      Except Error (Option BlockHash))
  | .innerGetBlock hash =>
    ((blocks.find? fun b => crates.blockHash b.header = hash).elim (.error .rpc) .ok :
      Except Error Block)
  | q => answer q

/-- Two blocks ... -/
def staleBlocks : List Block := [plainBlock 0 1 0, plainBlock 1 2 1]

/-- ... of which the second is replaced when a third is found. -/
def servedBlocks : List Block := [plainBlock 0 1 0, plainBlock 1 3 2, plainBlock 3 4 3]

/-- The answer asks for a rollback of the given depth. -/
def asksFor (height depth : Nat) : Except ReorgError Unit → Bool
  | .ok _ => false
  | .error e => e = .recoverable height depth

theorem asksFor_iff {height depth : Nat} {x : Except ReorgError Unit} :
    asksFor height depth x = true ↔ x = .error (.recoverable height depth) := by
  cases x <;> simp [asksFor]

/-! ### Blocks that ask the node -/

/-- The name that the transactions below ask for. -/
def name : Rune := named 7

/-- A transaction that names a rune and whose input reveals the commitment to it. -/
def nameTx : Transaction := tx [spend 9 0 [commitment name]] [3, 7]

/-- The commitment is all there is to check ... -/
def nameBlock : BlockData := block 1 2 [(nameTx, 3)] (by decide)

/-- ... or it is checked after a mint. -/
def mintAndNameBlock : BlockData := block 1 2 [(tx [] [2, 0, 0], 2), (nameTx, 3)] (by decide)

/-- ... or after an etching. -/
def etchAndNameBlock : BlockData := block 1 2 [(tx [] [1], 2), (nameTx, 3)] (by decide)

end Sample

end RunesIndexer
