import Serai.Bytes

/-!
# The primitives under the tributary's signatures

`coordinator/tributary/src/tendermint.rs` signs and verifies with three crates it does not
define: `ciphersuite` (the `Ristretto` group, its encodings and the wide reduction of a
hash to a scalar), `transcript` (`RecommendedTranscript`) and `schnorr`
(`SchnorrSignature`). This file fixes what the model assumes of them.

## The model

`Primitives F G` bundles the operations the source calls, over a scalar field `F` and a
group `G` of points on which `F` acts. Two laws are carried as fields: reading back what
`to_bytes` and `to_repr` wrote gives the same point and scalar. Nothing else is assumed of
the encodings, and the transcript's challenge is an arbitrary function of the transcript,
so every result proved over `Primitives` holds for every hash.

A `RecommendedTranscript` is the list of the members fed to it; `SchnorrSignature` is the
spec's Schnorr scheme (commitment, then response `nonce + challenge · key`).

`small` is a three-element instance, on which the model can be run.
-/

namespace Serai.Tributary

/-! ### Transcripts -/

/-- A member of a transcript: the domain label it was created with, a labelled message, or
the label of a challenge. -/
inductive TranscriptMember
  | domain (label : String)
  | message (label : String) (value : List UInt8)
  | challenge (label : String)
  deriving DecidableEq

/-- Modelled from the spec: the `RecommendedTranscript` of the `transcript` crate, absent from
the source, as §4.1 describes it: a domain label, then the messages fed to it in order. -/
structure RecommendedTranscript where
  members : List TranscriptMember
  deriving DecidableEq

namespace RecommendedTranscript

/-- Modelled from the spec: `RecommendedTranscript::new`. -/
def new (label : String) : RecommendedTranscript := ⟨[.domain label]⟩

/-- Modelled from the spec: `append_message`. -/
def appendMessage (t : RecommendedTranscript) (label : String) (value : List UInt8) :
    RecommendedTranscript :=
  ⟨t.members ++ [.message label value]⟩

end RecommendedTranscript

/-! ### The cryptography the source calls -/

/-- The operations the tributary code takes from `ciphersuite` and `transcript`, over a
scalar field `F` and a group `G` of points: `Ristretto::generator`, `to_bytes` and `read_G`,
`to_repr` and `read_F`, `from_bytes_mod_order_wide`, and the 64-byte challenge of a
transcript under a label. The laws are the two round trips of the encodings. -/
structure Primitives (F G : Type) [Field F] [AddCommGroup G] [Module F G] where
  generator : G
  toBytes : G → Bytes 32
  readG : Bytes 32 → Option G
  toRepr : F → Bytes 32
  readF : Bytes 32 → Option F
  fromBytesModOrderWide : Bytes 64 → F
  transcriptChallenge : RecommendedTranscript → String → Bytes 64
  generator_ne_zero : generator ≠ 0
  readG_toBytes : ∀ P, readG (toBytes P) = some P
  readF_toRepr : ∀ s, readF (toRepr s) = some s

variable {F G : Type} [Field F] [AddCommGroup G] [Module F G] (cs : Primitives F G)

namespace Primitives

/-- `F::from_bytes_mod_order_wide(&transcript.challenge(label).into())`: the scalar a
transcript hashes to, as `challenge` and the nonce of `sign` both derive it. -/
def hashToScalar (t : RecommendedTranscript) (label : String) : F :=
  cs.fromBytesModOrderWide (cs.transcriptChallenge t label)

lemma toBytes_injective : Function.Injective cs.toBytes := fun P Q h => by
  simpa [cs.readG_toBytes] using congrArg cs.readG h

/-- Distinct scalars give distinct multiples of the generator. -/
lemma smul_generator_injective : Function.Injective fun k : F => k • cs.generator :=
  smul_left_injective F cs.generator_ne_zero

end Primitives

/-! ### Schnorr signatures -/

/-- Modelled from the spec: `SchnorrSignature` of the `schnorr` crate, absent from the
source: a nonce commitment `R` and a response `s` (§3). -/
structure SchnorrSignature (F G : Type) where
  R : G
  s : F

namespace SchnorrSignature

/-- Modelled from the spec: `SchnorrSignature::sign`, the commitment `nonce · G` and the
response `nonce + challenge · key` (§4.2). -/
def sign (privateKey nonce challenge : F) : SchnorrSignature F G :=
  ⟨nonce • cs.generator, nonce + challenge * privateKey⟩

/-- Modelled from the spec: `serialize`, the 32-byte commitment then the 32-byte response
(§3). -/
def serialize (sig : SchnorrSignature F G) : Bytes 64 :=
  (cs.toBytes sig.R).append (cs.toRepr sig.s)

/-- Modelled from the spec: `SchnorrSignature::read`, which fails when either half does not
parse (§4.3). -/
def read (b : Bytes 64) : Option (SchnorrSignature F G) := do
  let R ← cs.readG (b.left 32 32)
  let s ← cs.readF (b.right 32 32)
  pure ⟨R, s⟩

/-- Modelled from the spec: `verify`, the Schnorr equation `s · G = R + challenge · key`
(§4.3). -/
def verify [DecidableEq G] (sig : SchnorrSignature F G) (publicKey : G) (challenge : F) :
    Bool :=
  sig.s • cs.generator = sig.R + challenge • publicKey

@[simp] lemma read_serialize (sig : SchnorrSignature F G) :
    read cs (serialize cs sig) = some sig := by
  simp [read, serialize, cs.readG_toBytes, cs.readF_toRepr]

@[simp] lemma serialize_take (sig : SchnorrSignature F G) :
    (serialize cs sig).toList.take 32 = (cs.toBytes sig.R).toList :=
  Bytes.take_append _ _

/-- **Completeness of the scheme.** A signature made with `key` verifies against `key · G`
under the challenge it was made with. -/
lemma verify_sign [DecidableEq G] (key nonce c : F) :
    (sign cs key nonce c).verify cs (key • cs.generator) c = true := by
  simp [verify, sign, add_smul, mul_smul]

end SchnorrSignature

/-! ### A three-element instance -/

/-- The one-byte encoding of an element of `ZMod 3`, padded with zeros. -/
def smallEncode (x : ZMod 3) : Bytes 32 := ⟨UInt8.ofNat x.val :: List.replicate 31 0, rfl⟩

/-- Reading back `smallEncode`, which fails on every other array. -/
def smallDecode (b : Bytes 32) : Option (ZMod 3) :=
  match b.toList with
  | x :: rest => if x.toNat < 3 ∧ rest = List.replicate 31 0 then some (x.toNat : ZMod 3) else none
  | [] => none

lemma smallDecode_smallEncode : ∀ x, smallDecode (smallEncode x) = some x := by decide

/-- The primitives on `ZMod 3` acting on itself, with the transcript challenge `h`; the wide
reduction reads the first byte. -/
def small (h : RecommendedTranscript → String → Bytes 64) : Primitives (ZMod 3) (ZMod 3) where
  generator := 1
  toBytes := smallEncode
  readG := smallDecode
  toRepr := smallEncode
  readF := smallDecode
  fromBytesModOrderWide b := (b.toList.headD 0).toNat
  transcriptChallenge := h
  generator_ne_zero := by decide
  readG_toBytes := smallDecode_smallEncode
  readF_toRepr := smallDecode_smallEncode

end Serai.Tributary
