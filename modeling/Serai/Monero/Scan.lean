import Serai.Bytes

/-!
# Scanning a transaction for owned outputs

`Transaction::scan` of `coins/monero/src/wallet/scan.rs`: for every output and every public
key of the extra field, derive the shared key in the traditional and in the unique way, and
report the output when one of them maps its key back to the wallet's spend key.

## The model

The curve, the extra-field parser and the wallet's derivations live outside the source;
`ScanPrimitives` takes them as parameters, with no law: nothing proved below depends on
what they compute. That includes `Commitment::zero()`, whose mask the source never sets.

The two loops are structural recursions. `scanKey` is one pass of the inner loop's body:
it says whether to go on to the next public key (no key matched, or the `continue` of a
missing `ecdh_info` entry), or to leave the inner loop, with an output to report or without
(a malicious commitment, or an amount of zero). `scanKeys` runs it over the public keys and
`scanOutputs` over the outputs, threading the result vector.

## Main results

* `scanKeys_eq`: the inner loop appends at most one entry, for the output it is on;
* `scan_reports`: the entries `scan` returns have strictly increasing indices, and each is
  an output of the transaction whose key matches, with its commitment either Monero's
  miner commitment (`Commitment::zero()` with the output's amount) or one that
  recomputes to the transaction's commitment for that output;
* `scan_reports_key_offset`: each reported offset is a shared key of a public key of the
  extra field, and a RingCT entry carries the commitment rebuilt from the decrypted amount;
* `scan_reports_owned_output`: conversely, an output that a public key of the extra field
  opens is reported, when every offset that opens it gives a nonzero amount and, for a
  RingCT output, a commitment that recomputes.
-/

namespace Serai.Monero

/-! ### Data -/

/-- `Commitment`: a mask and an amount. -/
structure Commitment (Scalar : Type) where
  mask : Scalar
  amount : UInt64
  deriving DecidableEq

/-- An output of a transaction: its clear amount (zero for a RingCT output) and its key. -/
structure Output (Point : Type) where
  amount : UInt64
  key : Point
  deriving DecidableEq

/-- `TransactionPrefix`, with the fields `scan` reads. -/
structure TransactionPrefix (Input Point : Type) where
  inputs : List Input
  outputs : List (Output Point)
  extra : List UInt8

/-- `RctBase`, with the fields `scan` reads: the encrypted amounts and the commitments. -/
structure RctBase (Ecdh Point : Type) where
  ecdhInfo : List Ecdh
  commitments : List Point

/-- `RctSignatures`, with the part `scan` reads. -/
structure RctSignatures (Ecdh Point : Type) where
  base : RctBase Ecdh Point

/-- `Transaction`. -/
structure Transaction (Input Ecdh Point : Type) where
  txPrefix : TransactionPrefix Input Point
  rctSignatures : RctSignatures Ecdh Point

/-- `SpendableOutput`: the transaction's hash, the output's index and key, the offset of its
key from the spend key, and its commitment. -/
structure SpendableOutput (Scalar Point : Type) where
  tx : Bytes 32
  o : ℕ
  key : Point
  keyOffset : Scalar
  commitment : Commitment Scalar
  deriving DecidableEq

/-- The functions `scan` calls that the source does not define: the basepoint table and
point decompression of `curve25519-dalek`, `write_varint`, the extra-field parser and its
two key accessors, the wallet's `uniqueness`, `shared_key`, `amount_decryption` and
`commitment_mask`, `Commitment::calculate` and `Commitment::zero`, and `Transaction::hash`. -/
structure ScanPrimitives (Scalar Point Input Ecdh Extra : Type) where
  basepointMul : Scalar → Point
  decompress : Bytes 32 → Option Point
  writeVarint : ℕ → List UInt8
  deserializeExtra : List UInt8 → Option Extra
  txPubkey : Extra → Option (Bytes 32)
  txAdditionalPubkeys : Extra → Option (List (Bytes 32))
  uniqueness : List Input → Bytes 32
  sharedKey : Option (Bytes 32) → Scalar → Point → ℕ → Scalar
  amountDecryption : Ecdh → Scalar → UInt64
  commitmentMask : Scalar → Scalar
  calculate : Commitment Scalar → Point
  zero : Commitment Scalar
  hash : Transaction Input Ecdh Point → Bytes 32

/-- What one pass of the inner loop's body decides: go on to the next public key, or leave
the inner loop, with the output to report if there is one. -/
inductive Flow (α : Type)
  | next
  | stop (found : Option α)

variable {Scalar Point Input Ecdh Extra : Type} [Sub Point] [DecidableEq Point]
  (w : ScanPrimitives Scalar Point Input Ecdh Extra) (tx : Transaction Input Ecdh Point)
  (view : Scalar) (spend : Point)

/-! ### The scan -/

/-- The public keys of the extra field that decompress: the transaction key, then the
additional keys. -/
def pubkeys (extra : Extra) : List Point :=
  ((w.txPubkey extra).toList ++ (w.txAdditionalPubkeys extra).getD []).filterMap w.decompress

/-- One pass of the inner loop's body, for output `o` and one public key. -/
def scanKey (o : ℕ) (output : Output Point) (pubkey : Point) :
    Flow (SpendableOutput Scalar Point) :=
  let test := fun sharedKey => if output.key - w.basepointMul sharedKey = spend
    then some sharedKey else none
  let traditional := test (w.sharedKey none view pubkey o)
  let unique := test (w.sharedKey (some (w.uniqueness tx.txPrefix.inputs)) view pubkey o)
  match traditional.or unique with
  | none => .next
  | some keyOffset =>
    let report := fun commitment : Commitment Scalar => Flow.stop
      (if commitment.amount ≠ 0 then some ⟨w.hash tx, o, output.key, keyOffset, commitment⟩
        else none)
    if output.amount ≠ 0 then report { w.zero with amount := output.amount }
    else
      match tx.rctSignatures.base.ecdhInfo[o]? with
      | none => .next
      | some amount =>
        let commitment : Commitment Scalar :=
          ⟨w.commitmentMask keyOffset, w.amountDecryption amount keyOffset⟩
        if some (w.calculate commitment) ≠ tx.rctSignatures.base.commitments[o]? then .stop none
        else report commitment

/-- The inner loop, over the public keys, for output `o`. -/
def scanKeys (o : ℕ) (output : Output Point) :
    List Point → List (SpendableOutput Scalar Point) → List (SpendableOutput Scalar Point)
  | [], res => res
  | pubkey :: rest, res =>
    match scanKey w tx view spend o output pubkey with
    | .next => scanKeys o output rest res
    | .stop none => res
    | .stop (some found) => res ++ [found]

/-- The outer loop, over the outputs from index `o` on. -/
def scanOutputs (keys : List Point) :
    ℕ → List (Output Point) → List (SpendableOutput Scalar Point) →
      List (SpendableOutput Scalar Point)
  | _, [], res => res
  | o, output :: rest, res =>
    scanOutputs keys (o + 1) rest (scanKeys w tx view spend o output keys res)

/-- `Transaction::scan`. -/
def Transaction.scan : List (SpendableOutput Scalar Point) :=
  match w.deserializeExtra (w.writeVarint tx.txPrefix.extra.length ++ tx.txPrefix.extra) with
  | none => []
  | some extra => scanOutputs w tx view spend (pubkeys w extra) 0 tx.txPrefix.outputs []

/-! ### What one pass decides -/

/-- What the scan promises of an entry it reports for output `o` and public key `pubkey`:
the offset is one of the two derivations of `pubkey`, and a RingCT output's commitment is the
one rebuilt from its decrypted amount. -/
def ReportsOutput (o : ℕ) (output : Output Point) (pubkey : Point)
    (e : SpendableOutput Scalar Point) : Prop :=
  e.o = o ∧ e.key = output.key ∧ e.key - w.basepointMul e.keyOffset = spend ∧
    e.tx = w.hash tx ∧ e.commitment.amount ≠ 0 ∧
    (∃ u ∈ [none, some (w.uniqueness tx.txPrefix.inputs)],
      e.keyOffset = w.sharedKey u view pubkey o) ∧
    (output.amount ≠ 0 ∧ e.commitment = { w.zero with amount := output.amount } ∨
      output.amount = 0 ∧ ∃ amount, tx.rctSignatures.base.ecdhInfo[o]? = some amount ∧
        e.commitment = ⟨w.commitmentMask e.keyOffset, w.amountDecryption amount e.keyOffset⟩ ∧
        tx.rctSignatures.base.commitments[o]? = some (w.calculate e.commitment))

/-- The first of two candidates that passes a test: the one `Option.or` picks passes it. -/
lemma or_filter_eq_some {α : Type} (p : α → Prop) [DecidablePred p] {a b k : α}
    (h : ((if p a then some a else none).or (if p b then some b else none)) = some k) :
    (k = a ∨ k = b) ∧ p k := by
  by_cases ha : p a
  · obtain rfl : a = k := Option.some_injective _ (by rwa [if_pos ha] at h)
    exact ⟨.inl rfl, ha⟩
  · rw [if_neg ha] at h
    split_ifs at h with hb
    · obtain rfl : b = k := Option.some_injective _ h
      exact ⟨.inr rfl, hb⟩
    · cases h

lemma scanKey_reports {o : ℕ} {output : Output Point} {pubkey : Point}
    {e : SpendableOutput Scalar Point}
    (h : scanKey w tx view spend o output pubkey = .stop (some e)) :
    ReportsOutput w tx view spend o output pubkey e := by
  simp only [scanKey] at h
  split at h
  · cases h
  · rename_i k hk
    obtain ⟨hu, hspend⟩ := or_filter_eq_some (fun x => output.key - w.basepointMul x = spend) hk
    have hkey : (∃ u ∈ [none, some (w.uniqueness tx.txPrefix.inputs)],
        k = w.sharedKey u view pubkey o) ∧ output.key - w.basepointMul k = spend :=
      ⟨by simpa using hu, hspend⟩
    split_ifs at h with hamt
    · obtain ⟨hne, rfl⟩ : output.amount ≠ 0 ∧ _ := by simpa [hamt] using h
      exact ⟨rfl, rfl, hkey.2, rfl, hamt, hkey.1, .inl ⟨hamt, rfl⟩⟩
    · split at h
      · cases h
      · rename_i amount ha
        split_ifs at h with hc hd
        · cases h
        · obtain rfl := Option.some_injective _ (Flow.stop.inj h)
          exact ⟨rfl, rfl, hkey.2, rfl, hd, hkey.1,
            .inr ⟨not_not.1 hamt, amount, ha, rfl, (not_not.1 hc).symm⟩⟩
        · cases h

/-! ### The loops -/

/-- **The inner loop appends at most one entry**, and that entry reports output `o`. -/
lemma scanKeys_eq (o : ℕ) (output : Output Point) (keys : List Point)
    (res : List (SpendableOutput Scalar Point)) :
    ∃ found : Option (SpendableOutput Scalar Point),
      scanKeys w tx view spend o output keys res = res ++ found.toList ∧
        ∀ e ∈ found, ∃ pubkey ∈ keys, ReportsOutput w tx view spend o output pubkey e := by
  induction keys with
  | nil => exact ⟨none, by simp [scanKeys], by simp⟩
  | cons pubkey rest ih =>
    simp only [scanKeys]
    split
    · obtain ⟨found, heq, hfound⟩ := ih
      exact ⟨found, heq, fun e he =>
        (hfound e he).imp fun pk ⟨hpk, hr⟩ => ⟨List.mem_cons_of_mem _ hpk, hr⟩⟩
    · exact ⟨none, by simp, by simp⟩
    · rename_i e he
      exact ⟨some e, rfl, fun e' he' => Option.mem_some_iff.1 he' ▸
        ⟨pubkey, List.mem_cons_self _ _, scanKey_reports w tx view spend he⟩⟩

/-- A suffix of a list starting with `a` puts `a` at its index. -/
lemma drop_eq_cons {α : Type} {l rest : List α} {o : ℕ} {a : α} (h : l.drop o = a :: rest) :
    l[o]? = some a ∧ l.drop (o + 1) = rest :=
  ⟨by rw [← Nat.add_zero o, ← List.getElem?_drop, h, List.getElem?_cons_zero],
    by rw [← List.drop_drop, h]; rfl⟩

/-- The invariant of the outer loop before output `o`: the entries so far have strictly
increasing indices, all below `o`, and each reports an output of the transaction. -/
def ScanInv (keys : List Point) (o : ℕ) (res : List (SpendableOutput Scalar Point)) : Prop :=
  (res.map (·.o)).Sorted (· < ·) ∧ ∀ e ∈ res, e.o < o ∧
    ∃ output, tx.txPrefix.outputs[e.o]? = some output ∧
      ∃ pubkey ∈ keys, ReportsOutput w tx view spend e.o output pubkey e

lemma scanInv_step {o : ℕ} {output : Output Point} {res : List (SpendableOutput Scalar Point)}
    (keys : List Point) (h : ScanInv w tx view spend keys o res)
    (hget : tx.txPrefix.outputs[o]? = some output) :
    ScanInv w tx view spend keys (o + 1) (scanKeys w tx view spend o output keys res) := by
  obtain ⟨found, heq, hfound⟩ := scanKeys_eq w tx view spend o output keys res
  obtain ⟨hsorted, hres⟩ := h
  rw [heq]
  refine ⟨?_, fun e he => ?_⟩
  · rw [List.map_append, List.Sorted, List.pairwise_append]
    refine ⟨hsorted, by cases found <;> simp, fun a ha b hb => ?_⟩
    obtain ⟨e', he', rfl⟩ := List.mem_map.1 ha
    obtain ⟨e, he, rfl⟩ := List.mem_map.1 hb
    obtain ⟨_, -, hr⟩ := hfound e (Option.mem_toList.1 he)
    rw [hr.1]
    exact (hres e' he').1
  · rcases List.mem_append.1 he with he | he
    · exact ⟨Nat.lt_succ_of_lt (hres e he).1, (hres e he).2⟩
    · obtain ⟨pubkey, hpk, hr⟩ := hfound e (Option.mem_toList.1 he)
      rw [hr.1]
      exact ⟨Nat.lt_succ_self o, output, hget, pubkey, hpk, hr.1 ▸ hr⟩

lemma scanOutputs_inv (keys : List Point) :
    ∀ (outs : List (Output Point)) (o : ℕ) (res : List (SpendableOutput Scalar Point)),
      tx.txPrefix.outputs.drop o = outs → ScanInv w tx view spend keys o res →
        ScanInv w tx view spend keys (o + outs.length)
          (scanOutputs w tx view spend keys o outs res)
  | [], o, res, _, h => h
  | output :: rest, o, res, hd, h => by
    obtain ⟨hget, hrest⟩ := drop_eq_cons hd
    have := scanOutputs_inv keys rest (o + 1) _ hrest (scanInv_step w tx view spend keys h hget)
    rw [List.length_cons, show o + (rest.length + 1) = o + 1 + rest.length by omega]
    exact this

/-- A run of the outer loop over all outputs keeps the invariant. -/
lemma scanOutputs_zero_inv (keys : List Point) :
    ScanInv w tx view spend keys tx.txPrefix.outputs.length
      (scanOutputs w tx view spend keys 0 tx.txPrefix.outputs []) := by
  simpa using scanOutputs_inv w tx view spend keys _ 0 [] (List.drop_zero _)
    ⟨List.sorted_nil, by simp⟩

/-- `scan` returns nothing when the extra field does not parse, and otherwise runs the outer
loop over the public keys it holds. -/
lemma scan_eq_scanOutputs :
    Transaction.scan w tx view spend = [] ∨ ∃ extra,
      w.deserializeExtra (w.writeVarint tx.txPrefix.extra.length ++ tx.txPrefix.extra) =
        some extra ∧
      Transaction.scan w tx view spend =
        scanOutputs w tx view spend (pubkeys w extra) 0 tx.txPrefix.outputs [] := by
  unfold Transaction.scan
  split
  · exact .inl rfl
  · exact .inr ⟨_, ‹_›, rfl⟩

/-- **What `scan` reports.** The entries have strictly increasing output indices, so no
output is reported twice; each is an output of the transaction whose key, less the key
offset times the basepoint, is the spend key, with the transaction's hash and a nonzero
amount; a clear-amount output carries `Commitment::zero()` with that amount, and a RingCT
output a commitment that recomputes to the transaction's commitment for it. -/
theorem scan_reports :
    ((Transaction.scan w tx view spend).map (·.o)).Sorted (· < ·) ∧
      ∀ e ∈ Transaction.scan w tx view spend, e.o < tx.txPrefix.outputs.length ∧
        ∃ output, tx.txPrefix.outputs[e.o]? = some output ∧ e.key = output.key ∧
          e.key - w.basepointMul e.keyOffset = spend ∧ e.tx = w.hash tx ∧
          e.commitment.amount ≠ 0 ∧
          (output.amount ≠ 0 ∧ e.commitment = { w.zero with amount := output.amount } ∨
            output.amount = 0 ∧
              tx.rctSignatures.base.commitments[e.o]? = some (w.calculate e.commitment)) := by
  rcases scan_eq_scanOutputs w tx view spend with h | ⟨extra, -, h⟩
  · simp [h]
  · rw [h]
    obtain ⟨hsorted, hall⟩ := scanOutputs_zero_inv w tx view spend (pubkeys w extra)
    refine ⟨hsorted, fun e he => ?_⟩
    obtain ⟨hlt, output, hget, -, -, -, hkey, hoff, htx, hamt, -, hcom⟩ := hall e he
    exact ⟨hlt, output, hget, hkey, hoff, htx, hamt,
      hcom.imp_right fun ⟨h0, _, _, _, hc⟩ => ⟨h0, hc⟩⟩

/-! ### The mask of a miner output's commitment -/

/-- A small instance on the integers, whose zero commitment has mask `1`. -/
def smallScan : ScanPrimitives ℤ ℤ Unit UInt64 Unit where
  basepointMul s := s
  decompress _ := some 0
  writeVarint n := [UInt8.ofNat n]
  deserializeExtra _ := some ()
  txPubkey _ := some (Bytes.zeros 32)
  txAdditionalPubkeys _ := none
  uniqueness _ := Bytes.zeros 32
  sharedKey _ _ _ _ := 7
  amountDecryption a _ := a
  commitmentMask s := s
  calculate c := c.mask + c.amount.toNat
  zero := ⟨1, 0⟩
  hash _ := Bytes.zeros 32

/-- A miner transaction with one output, of amount 5 and key 7. -/
def minerTx : Transaction Unit UInt64 ℤ := ⟨⟨[], [⟨5, 7⟩], []⟩, ⟨⟨[], []⟩⟩⟩

/-- The miner output is reported with the mask of `Commitment::zero()`, here `1`, not `0`. -/
theorem scan_miner_commitment_mask :
    Transaction.scan smallScan minerTx 0 0 = [⟨Bytes.zeros 32, 0, 7, 7, ⟨1, 5⟩⟩] ∧
      minerTx.txPrefix.outputs[0]? = some ⟨5, 7⟩ ∧ (⟨1, 5⟩ : Commitment ℤ) ≠ ⟨0, 5⟩ := by
  decide

/-! ### Where a reported offset comes from -/

/-- **Where a reported offset comes from.** Every entry `scan` reports was found through a
public key of the parsed extra field: its key offset is that key's traditional or unique
shared key for the output's index, and for a RingCT output its commitment is the one rebuilt
from the output's encrypted amount, the mask and the amount both derived from that offset. -/
theorem scan_reports_key_offset :
    ∀ e ∈ Transaction.scan w tx view spend, ∃ extra,
      w.deserializeExtra (w.writeVarint tx.txPrefix.extra.length ++ tx.txPrefix.extra) =
        some extra ∧
      (∃ pubkey ∈ pubkeys w extra, ∃ u ∈ [none, some (w.uniqueness tx.txPrefix.inputs)],
        e.keyOffset = w.sharedKey u view pubkey e.o) ∧
      ∀ output, tx.txPrefix.outputs[e.o]? = some output → output.amount = 0 →
        ∃ amount, tx.rctSignatures.base.ecdhInfo[e.o]? = some amount ∧
          e.commitment = ⟨w.commitmentMask e.keyOffset, w.amountDecryption amount e.keyOffset⟩ := by
  intro e he
  rcases scan_eq_scanOutputs w tx view spend with h | ⟨extra, hx, h⟩
  · simp [h] at he
  · rw [h] at he
    obtain ⟨-, output, hget, pubkey, hpk, -, -, -, -, -, hu, hcom⟩ :=
      (scanOutputs_zero_inv w tx view spend (pubkeys w extra)).2 e he
    refine ⟨extra, hx, ⟨pubkey, hpk, hu⟩, fun output' hget' h0 => ?_⟩
    obtain rfl : output = output' := Option.some_injective _ (hget.symm.trans hget')
    obtain ⟨-, amount, ha, hc, -⟩ := hcom.resolve_left fun h => h.1 h0
    exact ⟨amount, ha, hc⟩

theorem scan_reports_key_offset_miner :
    let e : SpendableOutput ℤ ℤ := ⟨Bytes.zeros 32, 0, 7, 7, ⟨1, 5⟩⟩
    e ∈ Transaction.scan smallScan minerTx 0 0 ∧ ∃ extra,
      smallScan.deserializeExtra (smallScan.writeVarint 0 ++ []) = some extra ∧
      ∃ pubkey ∈ pubkeys smallScan extra, ∃ u ∈ [none, some (smallScan.uniqueness [])],
        e.keyOffset = smallScan.sharedKey u 0 pubkey e.o := by
  refine ⟨?he, (scan_reports_key_offset smallScan minerTx 0 0 _ ?he).imp fun _ h => ⟨h.1, h.2.1⟩⟩
  decide

/-! ### Owned outputs are reported -/

/-- What makes the scan report output `o` once an offset `k` opens its key: a clear nonzero
amount, or an encrypted amount that decrypts under `k` to a nonzero amount whose commitment
recomputes to the transaction's. -/
def Reportable (o : ℕ) (output : Output Point) (k : Scalar) : Prop :=
  output.amount ≠ 0 ∨ ∃ amount, tx.rctSignatures.base.ecdhInfo[o]? = some amount ∧
    some (w.calculate ⟨w.commitmentMask k, w.amountDecryption amount k⟩) =
      tx.rctSignatures.base.commitments[o]? ∧ w.amountDecryption amount k ≠ 0

/-- When every offset that opens the output is reportable, one pass of the inner loop either
reports the output or goes on, and it goes on only when neither derivation of this public
key opens the output. -/
lemma scanKey_found_or_next {o : ℕ} {output : Output Point} (pubkey : Point)
    (h : ∀ k, output.key - w.basepointMul k = spend → Reportable w tx o output k) :
    (∃ e, scanKey w tx view spend o output pubkey = .stop (some e)) ∨
      scanKey w tx view spend o output pubkey = .next ∧
        ∀ u ∈ [none, some (w.uniqueness tx.txPrefix.inputs)],
          output.key - w.basepointMul (w.sharedKey u view pubkey o) ≠ spend := by
  simp only [scanKey]
  split
  · rename_i hnone
    simp only [Option.or_eq_none, ite_eq_right_iff, reduceCtorEq] at hnone
    exact .inr ⟨rfl, by simpa using hnone⟩
  · rename_i k hk
    have hkey := (or_filter_eq_some (fun x => output.key - w.basepointMul x = spend) hk).2
    left
    rcases h k hkey with hamt | ⟨a, ha, hc, hd⟩
    · simp [hamt]
    · split_ifs with hamt
      · simp [hamt]
      · simp [ha, hc, hd]

/-- The inner loop reports output `o` when one of the public keys opens it and every offset
that opens it is reportable. -/
lemma scanKeys_found {o : ℕ} {output : Output Point} {pubkey : Point} {u : Option (Bytes 32)}
    (h : ∀ k, output.key - w.basepointMul k = spend → Reportable w tx o output k)
    (hu : u ∈ [none, some (w.uniqueness tx.txPrefix.inputs)])
    (hmatch : output.key - w.basepointMul (w.sharedKey u view pubkey o) = spend)
    (res : List (SpendableOutput Scalar Point)) :
    ∀ keys, pubkey ∈ keys →
      ∃ e, e.o = o ∧ scanKeys w tx view spend o output keys res = res ++ [e]
  | pk :: rest, hpk => by
    simp only [scanKeys]
    rcases scanKey_found_or_next w tx view spend pk h with ⟨e, he⟩ | hno
    · rw [he]
      exact ⟨e, (scanKey_reports w tx view spend he).1, rfl⟩
    · rw [hno.1]
      rcases List.mem_cons.1 hpk with rfl | hpk
      · exact absurd hmatch (hno.2 u hu)
      · exact scanKeys_found h hu hmatch res rest hpk

/-- The outer loop only appends to the result vector. -/
lemma scanOutputs_extends (keys : List Point) :
    ∀ (outs : List (Output Point)) (o : ℕ) (res : List (SpendableOutput Scalar Point)),
      res <+: scanOutputs w tx view spend keys o outs res
  | [], _, _ => List.prefix_refl _
  | output :: rest, o, res => by
    obtain ⟨found, heq, -⟩ := scanKeys_eq w tx view spend o output keys res
    rw [scanOutputs, heq]
    exact (List.prefix_append res _).trans (scanOutputs_extends keys rest (o + 1) _)

/-- The outer loop, from an index at or before `i`, reports output `i` when its inner loop
does. -/
lemma scanOutputs_mem {keys : List Point} {i : ℕ} {output : Output Point}
    (hget : tx.txPrefix.outputs[i]? = some output)
    (hfound : ∀ res, ∃ e, e.o = i ∧ scanKeys w tx view spend i output keys res = res ++ [e]) :
    ∀ (outs : List (Output Point)) (o : ℕ) (res : List (SpendableOutput Scalar Point)),
      tx.txPrefix.outputs.drop o = outs → o ≤ i →
        ∃ e ∈ scanOutputs w tx view spend keys o outs res, e.o = i
  | [], o, res, hd, hle => by
    have : tx.txPrefix.outputs.length ≤ o := List.drop_eq_nil_iff.1 hd
    have : i < tx.txPrefix.outputs.length := (List.getElem?_eq_some_iff.1 hget).1
    omega
  | output' :: rest, o, res, hd, hle => by
    obtain ⟨hget', hrest⟩ := drop_eq_cons hd
    rcases Nat.lt_or_eq_of_le hle with hlt | rfl
    · exact scanOutputs_mem hget hfound rest (o + 1) _ hrest hlt
    · obtain rfl : output' = output := Option.some_injective _ (hget'.symm.trans hget)
      obtain ⟨e, he, heq⟩ := hfound res
      refine ⟨e, (scanOutputs_extends w tx view spend keys rest (o + 1) _).subset ?_, he⟩
      rw [heq]
      exact List.mem_append_right _ (List.mem_singleton_self e)

/-- **Owned outputs are reported.** If the extra field parses, a public key of it opens the
key of output `i` under the traditional or the unique derivation, and every offset that opens
that key is reportable, then `scan` reports output `i`. -/
theorem scan_reports_owned_output (extra : Extra)
    (hx : w.deserializeExtra (w.writeVarint tx.txPrefix.extra.length ++ tx.txPrefix.extra) =
      some extra)
    (i : ℕ) (output : Output Point) (hget : tx.txPrefix.outputs[i]? = some output)
    (pubkey : Point) (hpk : pubkey ∈ pubkeys w extra) (u : Option (Bytes 32))
    (hu : u ∈ [none, some (w.uniqueness tx.txPrefix.inputs)])
    (hmatch : output.key - w.basepointMul (w.sharedKey u view pubkey i) = spend)
    (hrep : ∀ k, output.key - w.basepointMul k = spend → Reportable w tx i output k) :
    ∃ e ∈ Transaction.scan w tx view spend, e.o = i := by
  rw [Transaction.scan, hx]
  exact scanOutputs_mem w tx view spend hget
    (fun res => scanKeys_found w tx view spend hrep hu hmatch res _ hpk) _ 0 [] (List.drop_zero _)
    (Nat.zero_le i)

theorem scan_reports_owned_output_miner :
    smallScan.deserializeExtra (smallScan.writeVarint 0 ++ []) = some () ∧
      minerTx.txPrefix.outputs[0]? = some ⟨5, 7⟩ ∧ (0 : ℤ) ∈ pubkeys smallScan () ∧
      (7 : ℤ) - smallScan.basepointMul (smallScan.sharedKey none 0 0 0) = 0 ∧
      ∃ e ∈ Transaction.scan smallScan minerTx 0 0, e.o = 0 := by
  refine ⟨?hx, ?hget, ?hpk, ?hmatch, scan_reports_owned_output smallScan minerTx 0 0 () ?hx 0 _
    ?hget 0 ?hpk none ?hu ?hmatch fun _ _ => .inl ?hamt⟩ <;> decide

end Serai.Monero
