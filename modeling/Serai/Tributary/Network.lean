import Serai.Tributary.Primitives

/-!
# Validating and committing blocks

`validate`, `add_block` and `slash` of the `Network` implementation in `tendermint.rs`.

## The model

The ledger (`Blockchain`) and the block decoder (`Block::read`) are not in the source, and
the model sees them only through what they answer: `read` is the decoder, `verifyBlock` the
answer of `verify_block`, and a list of answers stands for what the ledger's `add_block`
returns on the successive calls of the retry loop. A list is a finite prefix of the ledger's
behaviour; the loop consults one answer per call, so an infinite behaviour is seen through
all of its prefixes.

`add_block` returns nothing: the run is the list of its effects (calls of the ledger, log
lines, sleeps, and the panic that ends it). After a successful call the loop breaks into a
`todo!()`, which panics too.

## Main results

* `validate_addBlock`: `validate` answers `Temporal` exactly on `MissingProvided`, and for
  every list of the ledger's answers `add_block` retries, after a logged 30-second sleep,
  exactly on `MissingProvided`, calls the ledger only with the decoded block, and ends in a
  panic on anything else.
-/

namespace Serai.Tributary

/-- `hex::encode`: two lowercase hexadecimal digits per byte. -/
def hexEncode (bytes : List UInt8) : String :=
  String.join (bytes.map fun b =>
    String.mk [Nat.digitChar (b.toNat / 16), Nat.digitChar (b.toNat % 16)])

/-- The ledger's transaction faults, absent from the source. The adapter names only
`MissingProvided`, with the missing transaction's hash; every other variant reaches a
catch-all arm, and `other` stands for them. -/
inductive TransactionError
  | missingProvided (hash : Bytes 32)
  | other (code : ℕ)
  deriving DecidableEq

/-- The ledger's block faults, absent from the source: a transaction fault, or another
variant. -/
inductive BlockError
  | transactionError (e : TransactionError)
  | other (code : ℕ)
  deriving DecidableEq

/-- The engine's `BlockError`: the block is invalid, or may become valid later. -/
inductive TendermintBlockError
  | fatal
  | temporal
  deriving DecidableEq

/-- `TendermintBlock`: a block as the bytes of its encoding. -/
structure TendermintBlock where
  bytes : List UInt8

/-- One effect of the adapter, in the order it happens. -/
inductive Effect (β : Type)
  | addBlock (block : β)
  | log (msg : String)
  | sleep (secs : ℕ)
  | panic (msg : String)
  deriving DecidableEq

variable {β : Type} (genesis : Bytes 32) (read : List UInt8 → Option β)

/-! ### `validate` -/

/-- `validate`: a block that does not decode is fatal; otherwise the ledger's answer, with
`MissingProvided` temporal and every other fault fatal. -/
def validate (verifyBlock : β → Except BlockError Unit) (block : TendermintBlock) :
    Except TendermintBlockError Unit :=
  match read block.bytes with
  | none => .error .fatal
  | some block => (verifyBlock block).mapError fun
    | .transactionError (.missingProvided _) => .temporal
    | _ => .fatal

/-! ### `add_block` -/

/-- The panic of `invalid_block`. -/
def invalidBlock : Effect β :=
  .panic ("validators added invalid block to tributary " ++ hexEncode genesis.toList)

/-- The loop of `add_block` on the decoded block, given the ledger's answers to its calls. -/
def addBlockLoop (block : β) : List (Except BlockError Unit) → List (Effect β)
  | [] => []
  | r :: rs => .addBlock block :: match r with
    | .ok () => [.panic "not yet implemented"]
    | .error (.transactionError (.missingProvided hash)) =>
      .log ("missing provided transaction " ++ hexEncode hash.toList ++
        " which other validators on tributary " ++ hexEncode genesis.toList ++ " had") ::
      .sleep 30 :: addBlockLoop block rs
    | .error _ => [invalidBlock genesis]

/-- `add_block`: decode, then the retry loop. -/
def addBlock (block : TendermintBlock) (answers : List (Except BlockError Unit)) :
    List (Effect β) :=
  match read block.bytes with
  | none => [invalidBlock genesis]
  | some block => addBlockLoop genesis block answers

/-- `slash`: one line of the error log. -/
def slash (validator : Bytes 32) : List (Effect β) :=
  [.log ("validator " ++ hexEncode validator.toList ++ " was slashed on tributary " ++
    hexEncode genesis.toList)]

/-! ### What a run of `add_block` is -/

/-- The ledger's answer `MissingProvided(hash)`. -/
def missingProvided (hash : Bytes 32) : Except BlockError Unit :=
  .error (.transactionError (.missingProvided hash))

/-- A call that the ledger answers with `MissingProvided(hash)`: the call, the log line
naming the transaction, and the 30-second sleep before the next call. -/
def retryEffects (block : β) (hash : Bytes 32) : List (Effect β) :=
  [.addBlock block, .log ("missing provided transaction " ++ hexEncode hash.toList ++
    " which other validators on tributary " ++ hexEncode genesis.toList ++ " had"), .sleep 30]

/-- **Every run of the retry loop.** Whatever the ledger answers, the loop calls it once per
answer until the first answer that is not `MissingProvided`: a run of `MissingProvided`
answers gives a call, a log line and a sleep each; an `Ok` then gives the last call and the
`todo!()` panic; any other fault gives the last call and `invalid_block`'s panic. Nothing
follows the panic, and no call is made with another block. -/
lemma addBlockLoop_runs (block : β) :
    ∀ answers : List (Except BlockError Unit), ∃ (hashes : List (Bytes 32)) (rest : List _),
      answers = hashes.map missingProvided ++ rest ∧
      (rest = [] ∧
          addBlockLoop genesis block answers = hashes.flatMap (retryEffects genesis block) ∨
        (∃ rest', rest = .ok () :: rest' ∧ addBlockLoop genesis block answers =
          hashes.flatMap (retryEffects genesis block) ++
            [.addBlock block, .panic "not yet implemented"]) ∨
        ∃ e rest', rest = .error e :: rest' ∧ (∀ h, e ≠ .transactionError (.missingProvided h)) ∧
          addBlockLoop genesis block answers = hashes.flatMap (retryEffects genesis block) ++
            [.addBlock block,
              .panic ("validators added invalid block to tributary " ++ hexEncode genesis.toList)])
  | [] => ⟨[], [], rfl, .inl ⟨rfl, rfl⟩⟩
  | .ok () :: rest => ⟨[], _, rfl, .inr (.inl ⟨rest, rfl, rfl⟩)⟩
  | .error (.transactionError (.missingProvided h)) :: rest => by
    -- one retry, then the run of the remaining answers
    obtain ⟨hashes, rest', hrest, hrun⟩ := addBlockLoop_runs block rest
    have hcons :
        addBlockLoop genesis block (.error (.transactionError (.missingProvided h)) :: rest) =
          retryEffects genesis block h ++ addBlockLoop genesis block rest := rfl
    refine ⟨h :: hashes, rest', by rw [hrest]; rfl, ?_⟩
    rw [hcons, List.flatMap_cons]
    rcases hrun with ⟨rfl, he⟩ | ⟨r, rfl, he⟩ | ⟨e, r, rfl, hne, he⟩
    exacts [.inl ⟨rfl, by rw [he]⟩, .inr (.inl ⟨r, rfl, by rw [he, List.append_assoc]⟩),
      .inr (.inr ⟨e, r, rfl, hne, by rw [he, List.append_assoc]⟩)]
  | .error (.transactionError (.other c)) :: rest =>
    ⟨[], _, rfl, .inr (.inr ⟨_, rest, rfl, (fun _ h => by cases h), rfl⟩)⟩
  | .error (.other c) :: rest =>
    ⟨[], _, rfl, .inr (.inr ⟨_, rest, rfl, (fun _ h => by cases h), rfl⟩)⟩

/-- **Temporal faults are the retried ones.** `validate` is fatal exactly when the block does
not decode or the ledger reports a fault other than `MissingProvided`, temporal exactly on
`MissingProvided`, and `Ok` exactly when both succeed. `add_block` panics at once, without
calling the ledger, when the block does not decode. Otherwise, for every list of answers of
the ledger, it calls the ledger only with the decoded block, makes another call after one
30-second sleep exactly when the previous call answered `MissingProvided`, and after any
other answer makes no further call and panics: it never returns, so it never skips the
block. -/
theorem validate_addBlock (verifyBlock : β → Except BlockError Unit) (block : TendermintBlock) :
    (validate read verifyBlock block = .error .fatal ↔ read block.bytes = none ∨
      ∃ b e, read block.bytes = some b ∧ verifyBlock b = .error e ∧
        ∀ h, e ≠ .transactionError (.missingProvided h)) ∧
    (validate read verifyBlock block = .error .temporal ↔
      ∃ b h, read block.bytes = some b ∧ verifyBlock b = missingProvided h) ∧
    (validate read verifyBlock block = .ok () ↔
      ∃ b, read block.bytes = some b ∧ verifyBlock b = .ok ()) ∧
    (read block.bytes = none → ∀ answers, addBlock genesis read block answers =
      [.panic ("validators added invalid block to tributary " ++ hexEncode genesis.toList)]) ∧
    ∀ b, read block.bytes = some b → ∀ answers, ∃ (hashes : List (Bytes 32)) (rest : List _),
      answers = hashes.map missingProvided ++ rest ∧
      (rest = [] ∧ addBlock genesis read block answers = hashes.flatMap (retryEffects genesis b) ∨
        (∃ rest', rest = .ok () :: rest' ∧ addBlock genesis read block answers =
          hashes.flatMap (retryEffects genesis b) ++ [.addBlock b, .panic "not yet implemented"]) ∨
        ∃ e rest', rest = .error e :: rest' ∧ (∀ h, e ≠ .transactionError (.missingProvided h)) ∧
          addBlock genesis read block answers = hashes.flatMap (retryEffects genesis b) ++
            [.addBlock b,
              .panic ("validators added invalid block to tributary " ++ hexEncode genesis.toList)])
    := by
  refine ⟨?_, ?_, ?_, fun h _ => by simp [addBlock, h, invalidBlock], fun b hb answers => by
    simpa only [addBlock, hb] using addBlockLoop_runs genesis b answers⟩ <;>
  -- the three answers of `validate`, by what the decoder and the ledger answer
  · unfold validate
    cases hr : read block.bytes with
    | none => simp
    | some b =>
      cases hv : verifyBlock b with
      | ok u => simp [hv, Except.mapError, missingProvided]
      | error e => rcases e with (h | c) | c <;> simp [hv, Except.mapError, missingProvided]

end Serai.Tributary
