import Serai.Monero.ReserializeChain

/-!
# `check_block`

`check_block` of `coins/monero/src/bin/reserialize_chain.rs` asks a node for the block at a
height. It checks that the block re-serialises to the blob the node sent and hashes to the
hash the node named for that height. It then fetches the block's transactions, a hundred
hashes per call, and checks each the same way. Last, it verifies each transaction's
Bulletproofs, and its CLSAGs on the rings the node returns for the key offsets. Every failed
check panics.

## The model

The node is `Node`: its answer to each call, after JSON decoding. `none` is an error, which
the check `expect`s. `hex`, point decompression, and the reading, writing, hashing and
verifying of `monero-serai` are the parameters `CheckPrimitives`, with no law. Of a block
the check reads only its transaction hashes; of a transaction, its inputs, its commitments
and its prunable proofs. A panic is `none`. The `u64` running sum of the key offsets panics
or wraps on overflow, as the build's `Profile` says.

The `while` loop over `hashes_hex` is the `get_transactions` calls on the batches that
`getTransactionsBatches` drains. The two `for` loops are `List.forM`, over the `zip` of the
block's hashes with the node's transactions and over the `enumerate` of the CLSAGs.

## Main results

* `checkBlock_of_no_transactions`: `check_block` checks the transactions the node sends
  against the block's hashes only up to the shorter of the two lists, so a node that
  answers `get_transactions` with no transaction, and no missed one, has every block that
  reserialises pass unread;
* `checkBlock_all_transactions`: with a node that answers every call with as many
  transactions as it was asked for, every transaction of the block is checked;
* `actualIndexes_eq_some_iff`: with overflow checks on, the running sum accepts exactly the
  relative offsets of the non-decreasing lists of output indexes, and decodes each to the
  list it encodes;
* `actualIndexes_release`: without them, it returns the exact running sums modulo `2^64`;
* `checkBlock_release_of_debug`: a check that completes with overflow checks on completes
  without them.
-/

namespace Serai.Monero.ReserializeChain

/-! ### Data -/

/-- `Input`, with the fields `check_block` reads: a miner's `Input::Gen`, or an
`Input::ToKey` spending one of the outputs at `key_offsets`, with its key image. -/
inductive Input (Point : Type)
  | gen
  | toKey (keyOffsets : List UInt64) (keyImage : Point)
  deriving DecidableEq

/-- `RctPrunable`, with the proofs `check_block` verifies. -/
inductive RctPrunable (Bulletproofs Clsag Point : Type)
  | null
  | mlsagBorromean
  | mlsagBulletproofs (bulletproofs : Bulletproofs)
  | clsag (bulletproofs : Bulletproofs) (clsags : List Clsag) (pseudoOuts : List Point)
  deriving DecidableEq

/-- `Transaction`, with the fields `check_block` reads: `prefix.inputs`,
`rct_signatures.base.commitments` and `rct_signatures.prunable`. -/
structure Transaction (Point Bulletproofs Clsag : Type) where
  inputs : List (Input Point)
  commitments : List Point
  prunable : RctPrunable Bulletproofs Clsag Point
  deriving DecidableEq

/-- `TransactionResponse`. -/
structure TransactionResponse where
  txHash : String
  asHex : String
  deriving DecidableEq

/-- `TransactionsResponse`; `missed_tx` is empty when the node leaves it out. -/
structure TransactionsResponse where
  missedTx : List String
  txs : List TransactionResponse
  deriving DecidableEq

/-- `Out`: a ring member, as the node sends it. -/
structure Out where
  key : String
  mask : String
  deriving DecidableEq

/-- The answers of the node a check talks to: `get_block_hash`, and the `get_block`,
`get_transactions` and `get_outs` calls, each after JSON decoding. `get_block` is asked by
hex hash, and `get_outs` by the outputs' indexes, all of amount zero. -/
structure Node where
  getBlockHash : ℕ → Option (Bytes 32)
  getBlock : String → Option String
  getTransactions : List String → Option TransactionsResponse
  getOuts : List UInt64 → Option (List Out)

/-- What `check_block` calls that the source does not define: `hex::encode` and
`hex::decode`, `CompressedEdwardsY::decompress`, and from `monero-serai` `Block::read`,
`hash` and `serialize`, the block's `txs`, `Transaction::read`, `serialize`, `hash` and
`signature_hash`, `Bulletproofs::verify` (whose random number generator is left out) and
`Clsag::verify`. -/
structure CheckPrimitives (Block Point Bulletproofs Clsag : Type) where
  hexEncode : List UInt8 → String
  hexDecode : String → Option (List UInt8)
  decompress : Bytes 32 → Option Point
  readBlock : List UInt8 → Option Block
  blockHash : Block → Bytes 32
  serializeBlock : Block → List UInt8
  txs : Block → List (Bytes 32)
  readTransaction : List UInt8 → Option (Transaction Point Bulletproofs Clsag)
  serializeTransaction : Transaction Point Bulletproofs Clsag → List UInt8
  hash : Transaction Point Bulletproofs Clsag → Bytes 32
  signatureHash : Transaction Point Bulletproofs Clsag → Bytes 32
  verifyBulletproofs : Bulletproofs → List Point → Bool
  verifyClsag : Clsag → List (Point × Point) → Point → Point → Bytes 32 → Bool

/-- `assert!` and `assert_eq!`: go on when the condition holds, panic otherwise. -/
def ensure (c : Prop) [Decidable c] : Option Unit := if c then some () else none

@[simp] lemma ensure_eq_some {c : Prop} [Decidable c] {u : Unit} : ensure c = some u ↔ c := by
  unfold ensure; split_ifs <;> simp [*]

/-- A `for` loop of checks completes exactly when every pass does. -/
lemma forM_eq_some_iff {α : Type} (f : α → Option PUnit) (l : List α) :
    l.forM f = some () ↔ ∀ x ∈ l, f x = some () := by
  induction l with
  | nil => exact ⟨fun _ _ h => absurd h (List.not_mem_nil _), fun _ => rfl⟩
  | cons a l ih =>
    simp only [List.forM, List.forall_mem_cons, ← ih]
    cases f a <;> simp

/-! ### The key offsets -/

/-- `running_sum += offset` on `u64`: a panic on overflow with overflow checks on, wrapping
otherwise. -/
def u64Add : Profile → UInt64 → UInt64 → Option UInt64
  | .debug, a, b => if a.toNat + b.toNat < UInt64.size then some (a + b) else none
  | .release, a, b => some (a + b)

/-- The loop `for offset in key_offsets`, from `running_sum` and the `actual_indexes` so far. -/
def actualIndexesLoop (p : Profile) (runningSum : UInt64) (actualIndexes : List UInt64) :
    List UInt64 → Option (List UInt64)
  | [] => some actualIndexes
  | offset :: keyOffsets =>
    match u64Add p runningSum offset with
    | none => none
    | some runningSum => actualIndexesLoop p runningSum (actualIndexes ++ [runningSum]) keyOffsets

/-- `actual_indexes`: the indexes of a ring's outputs, the running sums of its key offsets. -/
def actualIndexes (p : Profile) (keyOffsets : List UInt64) : Option (List UInt64) :=
  actualIndexesLoop p 0 [] keyOffsets

/-- Monero's relative form of a ring's output indexes, as a wallet writes `key_offsets`: each
index minus the one before it, the first minus `prev`. -/
def keyOffsetsOf (prev : UInt64) : List UInt64 → List UInt64
  | [] => []
  | index :: indexes => (index - prev) :: keyOffsetsOf index indexes

lemma u64_le_iff {a b : UInt64} : a ≤ b ↔ a.toNat ≤ b.toNat := Iff.rfl

lemma u64Add_release_of_debug {a b c : UInt64} (h : u64Add .debug a b = some c) :
    u64Add .release a b = some c := by
  simp only [u64Add] at h ⊢
  split_ifs at h
  exact h

lemma actualIndexesLoop_debug_iff (runningSum : UInt64) (acc keyOffsets indexes : List UInt64) :
    actualIndexesLoop .debug runningSum acc keyOffsets = some indexes ↔
      ∃ decoded, indexes = acc ++ decoded ∧ decoded.Chain (· ≤ ·) runningSum ∧
        keyOffsetsOf runningSum decoded = keyOffsets := by
  induction keyOffsets generalizing runningSum acc with
  | nil =>
    constructor
    · rintro ⟨⟩
      exact ⟨[], by simp, .nil, rfl⟩
    · rintro ⟨(_ | _), rfl, -, h⟩
      exacts [by simp [actualIndexesLoop], absurd h (List.cons_ne_nil _ _)]
  | cons offset keyOffsets ih =>
    simp only [actualIndexesLoop, u64Add]
    split_ifs with hfit
    · -- no overflow: the next index is `running_sum + offset`
      have hsum : (runningSum + offset).toNat = runningSum.toNat + offset.toNat := by
        rw [UInt64.toNat_add, Nat.mod_eq_of_lt hfit]
      rw [ih]
      constructor
      · rintro ⟨decoded, rfl, hc, hk⟩
        refine ⟨(runningSum + offset) :: decoded, by simp, .cons ?_ hc, ?_⟩
        · rw [u64_le_iff, hsum]; omega
        · simp [keyOffsetsOf, hk]
      · rintro ⟨(_ | ⟨index, decoded⟩), rfl, hc, hk⟩
        · cases hk
        · obtain ⟨hle, hc⟩ := List.chain_cons.1 hc
          simp only [keyOffsetsOf, List.cons.injEq] at hk
          obtain rfl : runningSum + offset = index := by rw [← hk.1]; exact add_sub_cancel _ _
          exact ⟨decoded, by simp, hc, hk.2⟩
    · -- overflow: no relative form sums past `u64::MAX`
      simp only [reduceCtorEq, false_iff, not_exists, not_and]
      rintro (_ | ⟨index, decoded⟩) - hc hk
      · cases hk
      · simp only [keyOffsetsOf, List.cons.injEq] at hk
        have hle := u64_le_iff.1 (List.chain_cons.1 hc).1
        rw [← hk.1, UInt64.toNat_sub_of_le _ _ (u64_le_iff.2 hle)] at hfit
        exact hfit (by have := index.toNat_lt; simp only [UInt64.size]; omega)

/-- **The running sum inverts the relative form.** With overflow checks on, the running sum
of `key_offsets` completes exactly when the offsets are the relative form of a
non-decreasing list of indexes, and it returns that list. -/
theorem actualIndexes_eq_some_iff (keyOffsets indexes : List UInt64) :
    actualIndexes .debug keyOffsets = some indexes ↔
      indexes.Chain' (· ≤ ·) ∧ keyOffsetsOf 0 indexes = keyOffsets := by
  rw [actualIndexes, actualIndexesLoop_debug_iff]
  constructor
  · rintro ⟨decoded, rfl, hc, hk⟩
    refine ⟨?_, by simpa using hk⟩
    cases indexes with
    | nil => trivial
    | cons index indexes => exact (List.chain_cons.1 (by simpa using hc)).2
  · rintro ⟨hc, hk⟩
    refine ⟨indexes, by simp, ?_, hk⟩
    cases indexes with
    | nil => exact .nil
    | cons index indexes => exact .cons (u64_le_iff.2 (Nat.zero_le _)) hc

lemma actualIndexesLoop_release_of_debug (runningSum : UInt64)
    (acc keyOffsets indexes : List UInt64)
    (h : actualIndexesLoop .debug runningSum acc keyOffsets = some indexes) :
    actualIndexesLoop .release runningSum acc keyOffsets = some indexes := by
  induction keyOffsets generalizing runningSum acc with
  | nil => exact h
  | cons offset keyOffsets ih =>
    rw [actualIndexesLoop] at h ⊢
    split at h
    · cases h
    · rw [u64Add_release_of_debug ‹_›]
      exact ih _ _ h

lemma actualIndexes_release_of_debug {keyOffsets indexes : List UInt64}
    (h : actualIndexes .debug keyOffsets = some indexes) :
    actualIndexes .release keyOffsets = some indexes :=
  actualIndexesLoop_release_of_debug 0 [] keyOffsets indexes h

lemma scanl_eq_cons {α β : Type} (f : α → β → α) (a : α) (l : List β) :
    l.scanl f a = a :: (l.scanl f a).tail := by
  cases l <;> rfl

lemma actualIndexesLoop_release (runningSum : UInt64) (acc keyOffsets : List UInt64) :
    actualIndexesLoop .release runningSum acc keyOffsets =
      some (acc ++ (keyOffsets.scanl (· + ·) runningSum).tail) := by
  induction keyOffsets generalizing runningSum acc with
  | nil => simp [actualIndexesLoop]
  | cons offset keyOffsets ih =>
    simp only [actualIndexesLoop, u64Add]
    rw [ih, List.scanl_cons, List.singleton_append, List.tail_cons,
      scanl_eq_cons _ (runningSum + offset), List.tail_cons, List.append_assoc,
      List.singleton_append]

/-- Running sums that start congruent modulo `n` stay congruent. -/
lemma scanl_add_mod {n a b : ℕ} (h : a % n = b % n) (l : List ℕ) :
    (l.scanl (· + ·) a).map (· % n) = (l.scanl (· + ·) b).map (· % n) := by
  induction l generalizing a b with
  | nil => simp [h]
  | cons x l ih =>
    simp only [List.scanl_cons, List.singleton_append, List.map_cons, h, List.cons.injEq, true_and]
    exact ih (by rw [Nat.add_mod, h, ← Nat.add_mod])

lemma scanl_toNat (runningSum : UInt64) (keyOffsets : List UInt64) :
    (keyOffsets.scanl (· + ·) runningSum).map UInt64.toNat =
      ((keyOffsets.map UInt64.toNat).scanl (· + ·) runningSum.toNat).map (· % 2 ^ 64) := by
  induction keyOffsets generalizing runningSum with
  | nil => simp [Nat.mod_eq_of_lt runningSum.toNat_lt]
  | cons offset keyOffsets ih =>
    simp only [List.scanl_cons, List.singleton_append, List.map_cons,
      Nat.mod_eq_of_lt runningSum.toNat_lt, ih, List.cons.injEq, true_and]
    exact scanl_add_mod (by rw [UInt64.toNat_add]; exact Nat.mod_mod_of_dvd _ (by norm_num)) _

/-- **Without overflow checks the running sum wraps.** In a build without overflow checks,
`actual_indexes` are the running sums of `key_offsets` taken modulo `2^64`: wrapping at every
step is wrapping the exact sums once. -/
theorem actualIndexes_release (keyOffsets : List UInt64) :
    (actualIndexes .release keyOffsets).map (List.map UInt64.toNat) =
      some ((((keyOffsets.map UInt64.toNat).scanl (· + ·) 0).tail).map (· % 2 ^ 64)) := by
  rw [actualIndexes, actualIndexesLoop_release, Option.map_some', List.nil_append]
  simp only [List.map_tail, scanl_toNat, UInt64.toNat_zero]

section Check

variable {Block Point Bulletproofs Clsag : Type}
  (m : CheckPrimitives Block Point Bulletproofs Clsag) (p : Profile) (node : Node)

/-! ### The check -/

/-- `rpc_point`: hex, 32 bytes, a point on the curve; each failure panics. -/
def rpcPoint (point : String) : Option Point := do
  let bytes ← m.hexDecode point
  if h : bytes.length = 32 then m.decompress ⟨bytes, h⟩ else none

/-- `get_outs`: the ring the node returns for the given output indexes. -/
def getOuts (indexes : List UInt64) : Option (List (Point × Point)) := do
  let outs ← node.getOuts indexes
  outs.mapM fun out => do
    let key ← rpcPoint m out.key
    let mask ← rpcPoint m out.mask
    pure (key, mask)

/-- One pass of `for (i, clsag) in clsags.into_iter().enumerate()`: the `i`th input must spend
a ring, `Input::Gen` panics, and the CLSAG must verify on the ring its key offsets name, with
its key image and the `i`th pseudo-out. -/
def checkClsag (tx : Transaction Point Bulletproofs Clsag) (pseudoOuts : List Point)
    (sigHash : Bytes 32) (i : ℕ) (clsag : Clsag) : Option Unit := do
  let input ← tx.inputs[i]?
  match input with
  | .gen => none
  | .toKey keyOffsets image =>
    let indexes ← actualIndexes p keyOffsets
    let ring ← getOuts m node indexes
    let pseudoOut ← pseudoOuts[i]?
    ensure (m.verifyClsag clsag ring image pseudoOut sigHash)

/-- The `match` on `tx.rct_signatures.prunable`: verify the proofs the transaction carries. -/
def verifyProofs (tx : Transaction Point Bulletproofs Clsag) : Option Unit :=
  let sigHash := m.signatureHash tx
  match tx.prunable with
  | .null | .mlsagBorromean => some ()
  | .mlsagBulletproofs bulletproofs => ensure (m.verifyBulletproofs bulletproofs tx.commitments)
  | .clsag bulletproofs clsags pseudoOuts => do
    ensure (m.verifyBulletproofs bulletproofs tx.commitments)
    clsags.enum.forM fun clsag => checkClsag m p node tx pseudoOuts sigHash clsag.1 clsag.2

/-- One pass of the loop over the block's hashes and the node's transactions. -/
def checkTransaction (txHash : Bytes 32) (txRes : TransactionResponse) : Option Unit := do
  ensure (txRes.txHash = m.hexEncode txHash.toList)
  let bytes ← m.hexDecode txRes.asHex
  let tx ← m.readTransaction bytes
  ensure (m.hexEncode (m.serializeTransaction tx) = txRes.asHex)
  ensure (m.hash tx = txHash)
  verifyProofs m p node tx

/-- The `get_transactions` calls of the `while` loop, on the batches it drains: each answer
must miss no transaction, and its transactions are appended to `all_txs`. -/
def getTransactions : List (List String) → List TransactionResponse →
    Option (List TransactionResponse)
  | [], allTxs => some allTxs
  | batch :: batches, allTxs => do
    let txs ← node.getTransactions batch
    ensure (txs.missedTx = [])
    getTransactions batches (allTxs ++ txs.txs)

/-- `check_block`. -/
def checkBlock (blockI : ℕ) : Option Unit := do
  let hash ← node.getBlockHash blockI
  let blobHex ← node.getBlock (m.hexEncode hash.toList)
  let blob ← m.hexDecode blobHex
  let block ← m.readBlock blob
  ensure (m.blockHash block = hash)
  ensure (m.serializeBlock block = blob)
  if m.txs block ≠ [] then
    let allTxs ← getTransactions node
      (getTransactionsBatches ((m.txs block).map fun hash => m.hexEncode hash.toList)) []
    ((m.txs block).zip allTxs).forM fun tx => checkTransaction m p node tx.1 tx.2

/-! ### What a check establishes -/

/-- What the check of the `i`th CLSAG establishes: the `i`th input spends a ring, whose key
offsets decode to the indexes of outputs the node returns, and the CLSAG verifies on them
with the input's key image and the `i`th pseudo-out. -/
def ClsagVerified (tx : Transaction Point Bulletproofs Clsag) (pseudoOuts : List Point) (i : ℕ)
    (clsag : Clsag) : Prop :=
  ∃ keyOffsets image indexes ring pseudoOut,
    tx.inputs[i]? = some (.toKey keyOffsets image) ∧ actualIndexes p keyOffsets = some indexes ∧
      getOuts m node indexes = some ring ∧ pseudoOuts[i]? = some pseudoOut ∧
      m.verifyClsag clsag ring image pseudoOut (m.signatureHash tx) = true

/-- The proofs a transaction carries verify: its Bulletproofs against its commitments, and
each of its CLSAGs. -/
def ProofsVerified (tx : Transaction Point Bulletproofs Clsag) : Prop :=
  match tx.prunable with
  | .null | .mlsagBorromean => True
  | .mlsagBulletproofs bulletproofs => m.verifyBulletproofs bulletproofs tx.commitments = true
  | .clsag bulletproofs clsags pseudoOuts =>
    m.verifyBulletproofs bulletproofs tx.commitments = true ∧
      ∀ i (hi : i < clsags.length), ClsagVerified m p node tx pseudoOuts i clsags[i]

/-- What the check of a transaction the node sent establishes: the node sent it under the
block's hash, its hex reads as a transaction that writes back to the same hex and hashes to
that hash, and its proofs verify. -/
def TransactionChecked (txHash : Bytes 32) (txRes : TransactionResponse) : Prop :=
  ∃ tx, txRes.txHash = m.hexEncode txHash.toList ∧
    (∃ bytes, m.hexDecode txRes.asHex = some bytes ∧ m.readTransaction bytes = some tx) ∧
    m.hexEncode (m.serializeTransaction tx) = txRes.asHex ∧ m.hash tx = txHash ∧
    ProofsVerified m p node tx

/-- The block part of the check: the node names a hash for height `blockI` and sends a blob
that reads as `block`, which hashes to that hash and serialises back to the blob. -/
def BlockReserializes (blockI : ℕ) (block : Block) : Prop :=
  ∃ hash blobHex blob, node.getBlockHash blockI = some hash ∧
    node.getBlock (m.hexEncode hash.toList) = some blobHex ∧ m.hexDecode blobHex = some blob ∧
    m.readBlock blob = some block ∧ m.blockHash block = hash ∧ m.serializeBlock block = blob

/-- What a completed check of block `blockI` establishes. -/
def BlockChecked (blockI : ℕ) : Prop :=
  ∃ block allTxs, BlockReserializes m node blockI block ∧
    getTransactions node
      (getTransactionsBatches ((m.txs block).map fun hash => m.hexEncode hash.toList)) [] =
      some allTxs ∧
    ∀ i (h₁ : i < (m.txs block).length) (h₂ : i < allTxs.length),
      TransactionChecked m p node (m.txs block)[i] allTxs[i]

/-! ### The loops -/

lemma checkClsag_eq_some_iff (tx : Transaction Point Bulletproofs Clsag) (pseudoOuts : List Point)
    (i : ℕ) (clsag : Clsag) :
    checkClsag m p node tx pseudoOuts (m.signatureHash tx) i clsag = some () ↔
      ClsagVerified m p node tx pseudoOuts i clsag := by
  unfold checkClsag ClsagVerified
  simp only [Option.bind_eq_bind, Option.bind_eq_some]
  constructor
  · rintro ⟨(_ | ⟨keyOffsets, image⟩), hi, hrest⟩
    · cases hrest
    · simp only [Option.bind_eq_bind, Option.bind_eq_some, ensure_eq_some, exists_const] at hrest
      obtain ⟨indexes, ha, ring, hr, pseudoOut, hp, hv⟩ := hrest
      exact ⟨keyOffsets, image, indexes, ring, pseudoOut, hi, ha, hr, hp, hv⟩
  · rintro ⟨keyOffsets, image, indexes, ring, pseudoOut, hi, ha, hr, hp, hv⟩
    refine ⟨_, hi, ?_⟩
    simp only [Option.bind_eq_bind, ha, hr, hp, Option.some_bind]
    exact ensure_eq_some.2 hv

lemma verifyProofs_eq_some_iff (tx : Transaction Point Bulletproofs Clsag) :
    verifyProofs m p node tx = some () ↔ ProofsVerified m p node tx := by
  unfold verifyProofs ProofsVerified
  rcases tx with
    ⟨inputs, commitments, _ | _ | bulletproofs | ⟨bulletproofs, clsags, pseudoOuts⟩⟩
  · simp
  · simp
  · simp
  · simp only [Option.bind_eq_bind, Option.bind_eq_some, ensure_eq_some, exists_const,
      forM_eq_some_iff, and_congr_right_iff]
    intro _
    simp only [← checkClsag_eq_some_iff]
    constructor
    · intro h i hi
      exact h (i, clsags[i]) (List.mem_enum_iff_getElem?.2 (List.getElem?_eq_getElem hi))
    · rintro h ⟨i, clsag⟩ hmem
      obtain ⟨hi, hc⟩ := List.getElem?_eq_some_iff.1 (List.mem_enum_iff_getElem?.1 hmem)
      exact hc ▸ h i hi

lemma checkTransaction_eq_some_iff (txHash : Bytes 32) (txRes : TransactionResponse) :
    checkTransaction m p node txHash txRes = some () ↔
      TransactionChecked m p node txHash txRes := by
  unfold checkTransaction TransactionChecked
  simp only [Option.bind_eq_bind, Option.bind_eq_some, ensure_eq_some, exists_const,
    verifyProofs_eq_some_iff]
  constructor
  · rintro ⟨hh, bytes, hb, tx, ht, hs, hx, hp⟩
    exact ⟨tx, hh, ⟨bytes, hb, ht⟩, hs, hx, hp⟩
  · rintro ⟨tx, hh, ⟨bytes, hb, ht⟩, hs, hx, hp⟩
    exact ⟨hh, bytes, hb, tx, ht, hs, hx, hp⟩

/-- The loop over `zip` completes exactly when every transaction up to the shorter list
passes. -/
lemma forM_zip_eq_some_iff (txHashes : List (Bytes 32)) (allTxs : List TransactionResponse) :
    ((txHashes.zip allTxs).forM fun tx => checkTransaction m p node tx.1 tx.2) = some () ↔
      ∀ i (h₁ : i < txHashes.length) (h₂ : i < allTxs.length),
        TransactionChecked m p node txHashes[i] allTxs[i] := by
  rw [forM_eq_some_iff]
  constructor
  · intro h i h₁ h₂
    rw [← checkTransaction_eq_some_iff]
    exact h (txHashes[i], allTxs[i])
      (List.mem_iff_getElem?.2 ⟨i, List.getElem?_zip_eq_some.2
        ⟨List.getElem?_eq_getElem h₁, List.getElem?_eq_getElem h₂⟩⟩)
  · rintro h ⟨txHash, txRes⟩ hmem
    obtain ⟨i, hi⟩ := List.mem_iff_getElem?.1 hmem
    obtain ⟨h₁, h₂⟩ := List.getElem?_zip_eq_some.1 hi
    obtain ⟨hi₁, rfl⟩ := List.getElem?_eq_some_iff.1 h₁
    obtain ⟨hi₂, rfl⟩ := List.getElem?_eq_some_iff.1 h₂
    exact (checkTransaction_eq_some_iff m p node _ _).2 (h i hi₁ hi₂)

/-- What a completed check establishes: the block reserialises, the node misses none of its
transactions, and each transaction the node sends passes `TransactionChecked` against the
block's hash at its position, up to the shorter of the two lists. -/
lemma blockChecked_of_checkBlock {blockI : ℕ} (h : checkBlock m p node blockI = some ()) :
    BlockChecked m p node blockI := by
  unfold checkBlock at h
  simp only [Option.bind_eq_bind, Option.bind_eq_some, ensure_eq_some, exists_const] at h
  obtain ⟨hash, hh, blobHex, hbh, blob, hb, block, hr, hhash, hser, hrest⟩ := h
  have hblock : BlockReserializes m node blockI block :=
    ⟨hash, blobHex, blob, hh, hbh, hb, hr, hhash, hser⟩
  split_ifs at hrest with hne
  · obtain ⟨allTxs, hall, hzip⟩ := Option.bind_eq_some.1 hrest
    exact ⟨block, allTxs, hblock, hall, (forM_zip_eq_some_iff m p node _ _).1 hzip⟩
  · -- no transaction: no call, and nothing to check
    refine ⟨block, [], hblock, ?_, fun i _ h₂ => absurd h₂ (Nat.not_lt_zero _)⟩
    rw [not_not.1 hne, List.map_nil, getTransactionsBatches]
    rfl

/-- And the converse: every such node has the check complete. -/
lemma checkBlock_of_blockChecked {blockI : ℕ} (h : BlockChecked m p node blockI) :
    checkBlock m p node blockI = some () := by
  obtain ⟨block, allTxs, ⟨hash, blobHex, blob, hh, hbh, hb, hr, hhash, hser⟩, hall, htx⟩ :=
    h
  unfold checkBlock
  simp only [Option.bind_eq_bind, Option.bind_eq_some, ensure_eq_some, exists_const]
  refine ⟨hash, hh, blobHex, hbh, blob, hb, block, hr, hhash, hser, ?_⟩
  split_ifs
  · exact Option.bind_eq_some.2 ⟨allTxs, hall, (forM_zip_eq_some_iff m p node _ _).2 htx⟩
  · rfl

/-! ### How many transactions are checked -/

lemma getTransactions_of_silent
    (hsilent : ∀ batch, node.getTransactions batch = some ⟨[], []⟩) :
    ∀ (batches : List (List String)) (acc : List TransactionResponse),
      getTransactions node batches acc = some acc
  | [], _ => rfl
  | batch :: batches, acc => by
    simp only [getTransactions, hsilent, Option.bind_eq_bind, Option.some_bind, ensure,
      if_pos rfl, List.append_nil]
    exact getTransactions_of_silent hsilent batches acc

/-- With a node that answers every call with as many transactions as it was asked for, the
calls return one transaction per hash. -/
lemma getTransactions_length
    (hcount : ∀ batch answer, node.getTransactions batch = some answer →
      answer.txs.length = batch.length) :
    ∀ (batches : List (List String)) (acc allTxs : List TransactionResponse),
      getTransactions node batches acc = some allTxs →
      allTxs.length = acc.length + batches.flatten.length
  | [], acc, allTxs, h => by cases h; simp
  | batch :: batches, acc, allTxs, h => by
    simp only [getTransactions, Option.bind_eq_bind, Option.bind_eq_some, ensure_eq_some,
      exists_const] at h
    obtain ⟨answer, ha, -, h⟩ := h
    rw [getTransactions_length hcount batches _ _ h, List.length_append, hcount _ _ ha,
      List.flatten_cons, List.length_append, Nat.add_assoc]

/-- **A node that sends no transaction passes every block.** `check_block` never compares the
number of transactions the node returns with the number it asked for: a node that answers
every `get_transactions` call with no transaction, and no missed one, has every block that
reserialises pass, with none of its transactions read. -/
theorem checkBlock_of_no_transactions (blockI : ℕ) (block : Block)
    (hsilent : ∀ batch, node.getTransactions batch = some ⟨[], []⟩)
    (hblock : BlockReserializes m node blockI block) :
    checkBlock m p node blockI = some () :=
  checkBlock_of_blockChecked m p node ⟨block, [], hblock,
    getTransactions_of_silent node hsilent _ _, fun _ _ h₂ => absurd h₂ (Nat.not_lt_zero _)⟩

/-- External functions for the samples below: a block is its list of transaction hashes, hex
strings are empty, every blob reads as a block of one transaction with the zero hash, and
every transaction reads as one with no proof. -/
def samplePrimitives : CheckPrimitives (List (Bytes 32)) Unit Unit Unit where
  hexEncode _ := ""
  hexDecode _ := some []
  decompress _ := some ()
  readBlock _ := some [Bytes.zeros 32]
  blockHash _ := Bytes.zeros 32
  serializeBlock _ := []
  txs := id
  readTransaction _ := some ⟨[], [], .null⟩
  serializeTransaction _ := []
  hash _ := Bytes.zeros 32
  signatureHash _ := Bytes.zeros 32
  verifyBulletproofs _ _ := true
  verifyClsag _ _ _ _ _ := true

/-- A node that names the zero hash at every height and answers `get_transactions` with
`answer` of the hashes asked. -/
def sampleNode (answer : List String → List TransactionResponse) : Node where
  getBlockHash _ := some (Bytes.zeros 32)
  getBlock _ := some ""
  getTransactions batch := some ⟨[], answer batch⟩
  getOuts _ := some []

/-- The block of one transaction passes although no transaction can be read: the node sends
none. -/
theorem checkBlock_of_no_transactions_sample :
    (∀ batch, (sampleNode fun _ => []).getTransactions batch = some ⟨[], []⟩) ∧
      BlockReserializes { samplePrimitives with readTransaction := fun _ => none }
        (sampleNode fun _ => []) 0 [Bytes.zeros 32] ∧
      checkBlock { samplePrimitives with readTransaction := fun _ => none } .debug
        (sampleNode fun _ => []) 0 = some () := by
  refine ⟨?h1, ?h2, checkBlock_of_no_transactions _ _ _ 0 _ ?h1 ?h2⟩
  · exact fun _ => rfl
  · exact ⟨_, _, _, rfl, rfl, rfl, rfl, rfl, rfl⟩

/-- **With a complete node, every transaction is checked.** When the node answers every
`get_transactions` call with as many transactions as it was asked for, a check that completes
has checked every transaction of the block. -/
theorem checkBlock_all_transactions (blockI : ℕ)
    (hcount : ∀ batch answer, node.getTransactions batch = some answer →
      answer.txs.length = batch.length)
    (h : checkBlock m p node blockI = some ()) :
    ∃ block, BlockReserializes m node blockI block ∧
      ∀ txHash ∈ m.txs block, ∃ txRes, TransactionChecked m p node txHash txRes := by
  obtain ⟨block, allTxs, hblock, hall, htx⟩ := blockChecked_of_checkBlock m p node h
  have hlen : allTxs.length = (m.txs block).length := by
    rw [getTransactions_length node hcount _ _ _ hall, getTransactionsBatches_flatten]
    simp
  refine ⟨block, hblock, fun txHash hmem => ?_⟩
  obtain ⟨i, hi, rfl⟩ := List.getElem_of_mem hmem
  exact ⟨allTxs[i], htx i hi (hlen ▸ hi)⟩

/-- The node that sends one transaction per hash asked, under that hash. -/
def completeNode : Node := sampleNode (List.map fun hash => ⟨hash, ""⟩)

lemma checkBlock_completeNode (p : Profile) :
    checkBlock samplePrimitives p completeNode 0 = some () := by
  simp [checkBlock, samplePrimitives, completeNode, sampleNode, getTransactionsBatches,
    getTransactions, checkTransaction, verifyProofs, ensure, List.forM]

theorem checkBlock_all_transactions_sample :
    (∀ batch answer, completeNode.getTransactions batch = some answer →
      answer.txs.length = batch.length) ∧
    checkBlock samplePrimitives .debug completeNode 0 = some () ∧
    ∃ block, BlockReserializes samplePrimitives completeNode 0 block ∧
      ∀ txHash ∈ samplePrimitives.txs block,
        ∃ txRes, TransactionChecked samplePrimitives .debug completeNode txHash txRes := by
  refine ⟨?h1, ?h2, checkBlock_all_transactions _ _ _ 0 ?h1 ?h2⟩
  · rintro batch _ ⟨⟩
    simp
  · exact checkBlock_completeNode .debug

/-! ### Overflow checks -/

lemma clsagVerified_release_of_debug {tx : Transaction Point Bulletproofs Clsag}
    {pseudoOuts : List Point} {i : ℕ} {clsag : Clsag}
    (h : ClsagVerified m .debug node tx pseudoOuts i clsag) :
    ClsagVerified m .release node tx pseudoOuts i clsag := by
  obtain ⟨keyOffsets, image, indexes, ring, pseudoOut, hi, ha, hrest⟩ := h
  exact ⟨keyOffsets, image, indexes, ring, pseudoOut, hi, actualIndexes_release_of_debug ha,
    hrest⟩

lemma transactionChecked_release_of_debug {txHash : Bytes 32} {txRes : TransactionResponse}
    (h : TransactionChecked m .debug node txHash txRes) :
    TransactionChecked m .release node txHash txRes := by
  obtain ⟨tx, hh, hread, hs, hx, hp⟩ := h
  refine ⟨tx, hh, hread, hs, hx, ?_⟩
  unfold ProofsVerified at hp ⊢
  split at hp
  · trivial
  · trivial
  · exact hp
  · exact ⟨hp.1, fun i hi => clsagVerified_release_of_debug m node (hp.2 i hi)⟩

/-- **Overflow checks only add panics.** A check that completes in a build with overflow
checks on completes in a build without them: the two differ only in the running sum of the
key offsets, which wraps where the checked build panics. -/
theorem checkBlock_release_of_debug (blockI : ℕ) (h : checkBlock m .debug node blockI = some ()) :
    checkBlock m .release node blockI = some () := by
  obtain ⟨block, allTxs, hblock, hall, htx⟩ := blockChecked_of_checkBlock m .debug node h
  exact checkBlock_of_blockChecked m .release node ⟨block, allTxs, hblock, hall,
    fun i h₁ h₂ => transactionChecked_release_of_debug m node (htx i h₁ h₂)⟩

theorem checkBlock_release_of_debug_sample :
    checkBlock samplePrimitives .debug completeNode 0 = some () ∧
      checkBlock samplePrimitives .release completeNode 0 = some () := by
  refine ⟨?h, checkBlock_release_of_debug _ _ 0 ?h⟩
  exact checkBlock_completeNode .debug

end Check

end Serai.Monero.ReserializeChain
