import Serai.Tributary.Primitives

/-!
# The signer

`challenge`, `Signer::validator_id` and `Signer::sign` of `tendermint.rs`. The nonce is
derived from the chain identity, the key's encoding and the message, and `sign` refuses to
go on (the `assert!` at line 84) when it reduces to zero.

The zeroising of the nonce buffers (lines 72-82) is memory hygiene: it changes no value
the function returns, and the model leaves it out.

## Main results

* `sign_eq_some_iff`: what a signature returned by `sign` is made of;
* `sign_nonce_reuse`: two signatures under one key with the same nonce commitment, for two
  different (chain, message) pairs, need the nonce hash to collide on two distinct
  transcripts.
-/

namespace Serai.Tributary

variable {F G : Type} [Field F] [AddCommGroup G] [Module F G] [DecidableEq F]
  (cs : Primitives F G)

/-! ### The challenge -/

/-- The transcript `challenge` hashes: the domain label, then the chain identity, the
signer's key, the nonce commitment and the message. -/
def challengeTranscript (genesis key : Bytes 32) (nonce msg : List UInt8) :
    RecommendedTranscript :=
  (((RecommendedTranscript.new "Tributary Chain Tendermint Message").appendMessage "genesis"
    genesis.toList |>.appendMessage "key" key.toList).appendMessage "nonce" nonce).appendMessage
    "message" msg

/-- `challenge`: the Schnorr challenge of a message under a chain identity. -/
def challenge (genesis key : Bytes 32) (nonce msg : List UInt8) : F :=
  cs.hashToScalar (challengeTranscript genesis key nonce msg) "schnorr"

lemma challengeTranscript_injective {g₁ g₂ key : Bytes 32} {nonce m₁ m₂ : List UInt8}
    (h : challengeTranscript g₁ key nonce m₁ = challengeTranscript g₂ key nonce m₂) :
    g₁ = g₂ ∧ m₁ = m₂ := by
  simp [challengeTranscript, RecommendedTranscript.new, RecommendedTranscript.appendMessage] at h
  exact ⟨Bytes.ext h.1, h.2⟩

/-! ### The signer -/

/-- `Signer`: a chain identity and a secret scalar. -/
structure Signer (F : Type) where
  genesis : Bytes 32
  key : F

namespace Signer

/-- `validator_id`: the encoding of `key · G`. It is never `None`. -/
def validatorId (s : Signer F) : Option (Bytes 32) := some (cs.toBytes (s.key • cs.generator))

/-- The transcript the nonce is drawn from: the chain identity, the key's encoding and the
message. -/
def nonceTranscript (genesis key : Bytes 32) (msg : List UInt8) : RecommendedTranscript :=
  ((RecommendedTranscript.new "Tributary Chain Tendermint Nonce").appendMessage "genesis"
    genesis.toList |>.appendMessage "key" key.toList).appendMessage "message" msg

/-- The deterministic nonce of `sign`. -/
def nonce (s : Signer F) (msg : List UInt8) : F :=
  cs.hashToScalar (nonceTranscript s.genesis (cs.toRepr s.key) msg) "nonce"

/-- `sign`; `none` is the panic of the zero-nonce assertion. -/
def sign (s : Signer F) (msg : List UInt8) : Option (Bytes 64) :=
  let nonce := s.nonce cs msg
  if nonce = 0 then none
  else
    let challenge := challenge cs s.genesis (cs.toBytes (s.key • cs.generator))
      (cs.toBytes (nonce • cs.generator)).toList msg
    some ((SchnorrSignature.sign cs s.key nonce challenge).serialize cs)

lemma sign_eq_some_iff {s : Signer F} {msg : List UInt8} {sig : Bytes 64} :
    s.sign cs msg = some sig ↔ s.nonce cs msg ≠ 0 ∧
      sig = (SchnorrSignature.sign cs s.key (s.nonce cs msg) (challenge cs s.genesis
        (cs.toBytes (s.key • cs.generator)) (cs.toBytes (s.nonce cs msg • cs.generator)).toList
        msg)).serialize cs := by
  simp only [sign]
  split_ifs with h <;> simp [h, eq_comm]

/-- The first 32 bytes of a signature are the encoding of `nonce · G`. -/
lemma sign_take {s : Signer F} {msg : List UInt8} {sig : Bytes 64}
    (h : s.sign cs msg = some sig) :
    sig.toList.take 32 = (cs.toBytes (s.nonce cs msg • cs.generator)).toList := by
  obtain ⟨-, rfl⟩ := (sign_eq_some_iff cs).1 h
  simp [SchnorrSignature.sign]

lemma nonceTranscript_injective {g₁ g₂ k : Bytes 32} {m₁ m₂ : List UInt8}
    (h : nonceTranscript g₁ k m₁ = nonceTranscript g₂ k m₂) : g₁ = g₂ ∧ m₁ = m₂ := by
  simp [nonceTranscript, RecommendedTranscript.new, RecommendedTranscript.appendMessage] at h
  exact ⟨Bytes.ext h.1, h.2⟩

/-- **No nonce reuse without a collision.** If one key signs under two different (chain,
message) pairs and both signatures carry the same nonce commitment, the nonce hash maps the
two distinct nonce transcripts to the same scalar. -/
theorem sign_nonce_reuse (k : F) (g₁ g₂ : Bytes 32) (m₁ m₂ : List UInt8) (σ₁ σ₂ : Bytes 64)
    (hne : (g₁, m₁) ≠ (g₂, m₂)) (h₁ : sign cs ⟨g₁, k⟩ m₁ = some σ₁)
    (h₂ : sign cs ⟨g₂, k⟩ m₂ = some σ₂) (hR : σ₁.toList.take 32 = σ₂.toList.take 32) :
    cs.hashToScalar (nonceTranscript g₁ (cs.toRepr k) m₁) "nonce" =
        cs.hashToScalar (nonceTranscript g₂ (cs.toRepr k) m₂) "nonce" ∧
      nonceTranscript g₁ (cs.toRepr k) m₁ ≠ nonceTranscript g₂ (cs.toRepr k) m₂ := by
  have e : (cs.toBytes (nonce cs ⟨g₁, k⟩ m₁ • cs.generator)).toList =
      (cs.toBytes (nonce cs ⟨g₂, k⟩ m₂ • cs.generator)).toList := by
    rw [← sign_take cs h₁, ← sign_take cs h₂, hR]
  refine ⟨cs.smul_generator_injective (cs.toBytes_injective (Bytes.ext e)), fun h => ?_⟩
  obtain ⟨rfl, rfl⟩ := nonceTranscript_injective h
  exact hne rfl

/-- A transcript challenge that ignores its input: every nonce is `1`. -/
def constantChallenge : RecommendedTranscript → String → Bytes 64 :=
  fun _ _ => ⟨1 :: List.replicate 63 0, rfl⟩

/-- Under a challenge that ignores its input, the key `1` signs the empty message on two
chains with one nonce, and the nonce transcripts collide in the hash. -/
theorem sign_nonce_reuse_constant :
    let cs := small constantChallenge
    let σ := (smallEncode 1).append (smallEncode 2)
    (Bytes.zeros 32, ([] : List UInt8)) ≠ (smallEncode 1, []) ∧
      sign cs ⟨Bytes.zeros 32, 1⟩ [] = some σ ∧ sign cs ⟨smallEncode 1, 1⟩ [] = some σ ∧
      cs.hashToScalar (nonceTranscript (Bytes.zeros 32) (smallEncode 1) []) "nonce" =
        cs.hashToScalar (nonceTranscript (smallEncode 1) (smallEncode 1) []) "nonce" ∧
      nonceTranscript (Bytes.zeros 32) (smallEncode 1) [] ≠
        nonceTranscript (smallEncode 1) (smallEncode 1) [] := by
  refine ⟨?hne, ?h₁, ?h₂, sign_nonce_reuse _ 1 _ _ [] [] _ _ ?hne ?h₁ ?h₂ rfl⟩ <;> decide

end Signer

end Serai.Tributary
