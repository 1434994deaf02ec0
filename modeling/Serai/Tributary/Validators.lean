import Serai.Tributary.Signer

/-!
# The validator set as a signature scheme

`Validators` and its `SignatureScheme` implementation in `tendermint.rs`: `verify`,
`aggregate` and `verify_aggregate`, with `total_weight` and `weight` of its `Weights`
implementation (`proposer` is in `Serai.Tributary.Proposer`).

`verify` answers `false` for a non-member, for an id or a signature that does not parse,
and otherwise checks the Schnorr equation under the challenge it recomputes from its own
chain identity, the claimed id and the signature's first 32 bytes.

## Main results

* `verify_of_sign`: what `sign` returns verifies, for every member, under the signer's chain;
* `verify_binds_message`: a signature accepted for a validator whose id is not the identity
  point under two different (chain, message) pairs is a collision of the challenge hash;
* `verify_replay_needs_collision`: so in particular under two chain identities;
* `verify_identity`: for the identity point there is no such guarantee;
* `verifyAggregate_aggregate_nil`: `verify_aggregate` checks only the pairs `zip` forms, so
  an empty aggregate passes for every signer list;
* `verifyAggregate_of_sign`: the ids and signatures of honest signers of the chain pass
  `verify_aggregate`.
-/

namespace Serai.Tributary

/-- `Validators`: the chain identity, the total weight, the weight of each validator (the
`HashMap`, as the list of its entries) and the proposer schedule `robin`. -/
structure Validators where
  genesis : Bytes 32
  weight : UInt64
  weights : List (Bytes 32 × UInt64)
  robin : List (Bytes 32)

variable {F G : Type} [Field F] [AddCommGroup G] [Module F G] [DecidableEq G]
  (cs : Primitives F G)

namespace Validators

/-- `weights.contains_key`. -/
def containsKey (v : Validators) (validator : Bytes 32) : Bool :=
  (v.weights.lookup validator).isSome

/-- `verify`. -/
def verify (v : Validators) (validator : Bytes 32) (msg : List UInt8) (sig : Bytes 64) : Bool :=
  if !v.containsKey validator then false
  else
    match cs.readG validator with
    | none => false
    | some validatorPoint =>
      match SchnorrSignature.read cs sig with
      | none => false
      | some actualSig =>
        actualSig.verify cs validatorPoint
          (challenge cs v.genesis validator (sig.toList.take 32) msg)

/-- `aggregate`: the signatures side by side. -/
def aggregate (sigs : List (Bytes 64)) : List (Bytes 64) := sigs

/-- `verify_aggregate`: every pair of `signers.iter().zip(sig.iter())` verifies. -/
def verifyAggregate (v : Validators) (signers : List (Bytes 32)) (msg : List UInt8)
    (sig : List (Bytes 64)) : Bool :=
  (signers.zip sig).all fun p => v.verify cs p.1 msg p.2

end Validators

namespace Weights

/-- `total_weight` of the `Weights` implementation. -/
def totalWeight (v : Validators) : UInt64 := v.weight

/-- `weight` of the `Weights` implementation; `none` is the panic of indexing the map at a
non-member. -/
def weight (v : Validators) (validator : Bytes 32) : Option UInt64 :=
  v.weights.lookup validator

end Weights

lemma mapM_cons_eq_some {α β : Type} {f : α → Option β} {a : α} {l : List α} {bs : List β} :
    (a :: l).mapM f = some bs ↔ ∃ b bs', f a = some b ∧ l.mapM f = some bs' ∧ bs = b :: bs' := by
  rw [List.mapM_cons]
  simp only [Option.bind_eq_bind, Option.bind_eq_some, Option.pure_def, Option.some.injEq]
  simp [eq_comm]

namespace Validators

/-! ### The schedule and the members -/

/-- Modelled from the spec (§3): the proposer schedule lists exactly the members of the
weight map. The source builds no `Validators`; this is what its callers provide. -/
structure ScheduleCoversMembers (v : Validators) : Prop where
  /-- Every entry of the schedule is a member. -/
  robin_member : ∀ id ∈ v.robin, v.containsKey id = true
  /-- Every member has an entry in the schedule. -/
  member_robin : ∀ p ∈ v.weights, p.1 ∈ v.robin

instance (v : Validators) : Decidable v.ScheduleCoversMembers :=
  decidable_of_iff ((∀ id ∈ v.robin, v.containsKey id = true) ∧ ∀ p ∈ v.weights, p.1 ∈ v.robin)
    ⟨fun ⟨h₁, h₂⟩ => ⟨h₁, h₂⟩, fun ⟨h₁, h₂⟩ => ⟨h₁, h₂⟩⟩

lemma ScheduleCoversMembers.mem_robin_iff {v : Validators} (h : v.ScheduleCoversMembers)
    {id : Bytes 32} : id ∈ v.robin ↔ v.containsKey id = true :=
  ⟨h.robin_member id, fun hk => by
    obtain ⟨p, hp, he⟩ := List.lookup_isSome_iff.1 hk
    exact beq_iff_eq.1 he ▸ h.member_robin p hp⟩

/-! ### `verify` -/

lemma verify_eq_true_iff {v : Validators} {validator : Bytes 32} {msg : List UInt8}
    {sig : Bytes 64} :
    v.verify cs validator msg sig = true ↔ v.containsKey validator = true ∧
      ∃ P σ, cs.readG validator = some P ∧ SchnorrSignature.read cs sig = some σ ∧
        σ.verify cs P (challenge cs v.genesis validator (sig.toList.take 32) msg) = true := by
  unfold verify
  cases v.containsKey validator <;> simp only [Bool.not_false, Bool.not_true]
  · simp
  · cases cs.readG validator <;> cases SchnorrSignature.read cs sig <;> simp

/-- What `sign` returns verifies for the signer's id under a validator set of its chain. -/
lemma verify_eq_true_of_sign [DecidableEq F] {s : Signer F} {msg : List UInt8} {sig : Bytes 64}
    {id : Bytes 32} {v : Validators} (hsig : s.sign cs msg = some sig)
    (hid : s.validatorId cs = some id) (hg : v.genesis = s.genesis)
    (hmem : v.containsKey id = true) :
    v.verify cs id msg sig = true := by
  obtain ⟨-, rfl⟩ := (Signer.sign_eq_some_iff cs).1 hsig
  cases hid
  refine (verify_eq_true_iff cs).2 ⟨hmem, _, _, cs.readG_toBytes _,
    SchnorrSignature.read_serialize cs _, ?_⟩
  rw [SchnorrSignature.serialize_take, hg]
  exact SchnorrSignature.verify_sign cs _ _ _

/-- **Completeness.** A signature `sign` returns verifies for the signer's id, under every
validator set of the signer's chain that has the id as a member. -/
theorem verify_of_sign [DecidableEq F] (s : Signer F) (msg : List UInt8) (sig : Bytes 64)
    (id : Bytes 32) (v : Validators) (hsig : s.sign cs msg = some sig)
    (hid : s.validatorId cs = some id) (hg : v.genesis = s.genesis)
    (hmem : v.containsKey id = true) :
    v.verify cs id msg sig = true :=
  verify_eq_true_of_sign cs hsig hid hg hmem

theorem verify_of_sign_small :
    let cs := small Signer.constantChallenge
    let v : Validators := ⟨Bytes.zeros 32, 1, [(smallEncode 1, 1)], [smallEncode 1]⟩
    let σ := (smallEncode 1).append (smallEncode 2)
    Signer.sign cs ⟨Bytes.zeros 32, 1⟩ [] = some σ ∧
      Signer.validatorId cs ⟨Bytes.zeros 32, 1⟩ = some (smallEncode 1) ∧
      v.containsKey (smallEncode 1) = true ∧ v.verify cs (smallEncode 1) [] σ = true := by
  refine ⟨?hsig, ?hid, ?hmem, verify_of_sign _ _ _ _ _ _ ?hsig ?hid rfl ?hmem⟩ <;> decide

/-! ### Replay across chains -/

/-- Two signatures that verify for one validator whose id is not the identity point, with
the same bytes, were checked under the same challenge. -/
lemma challenge_eq_of_verify {va vb : Validators} {X : Bytes 32} {m₁ m₂ : List UInt8}
    {σ : Bytes 64} (hX : cs.readG X ≠ some 0) (ha : va.verify cs X m₁ σ = true)
    (hb : vb.verify cs X m₂ σ = true) :
    challenge cs va.genesis X (σ.toList.take 32) m₁ =
      (challenge cs vb.genesis X (σ.toList.take 32) m₂ : F) := by
  obtain ⟨-, P, sig, hP, hsig, hva⟩ := (verify_eq_true_iff cs).1 ha
  obtain ⟨-, P', sig', hP', hsig', hvb⟩ := (verify_eq_true_iff cs).1 hb
  obtain rfl : P = P' := Option.some_injective _ (hP.symm.trans hP')
  obtain rfl : sig = sig' := Option.some_injective _ (hsig.symm.trans hsig')
  have hP0 : P ≠ 0 := fun h => hX (h ▸ hP)
  simp only [SchnorrSignature.verify, decide_eq_true_eq] at hva hvb
  exact smul_left_injective F hP0 (add_left_cancel (hva.symm.trans hvb))

/-- **A signature binds its message and its chain, up to a collision.** One signature that
verifies for a validator whose id is not the identity point, under two different (chain,
message) pairs, makes the challenge hash agree on the two distinct transcripts. -/
theorem verify_binds_message (va vb : Validators) (X : Bytes 32) (m₁ m₂ : List UInt8)
    (σ : Bytes 64) (hne : (va.genesis, m₁) ≠ (vb.genesis, m₂)) (hX : cs.readG X ≠ some 0)
    (ha : va.verify cs X m₁ σ = true) (hb : vb.verify cs X m₂ σ = true) :
    cs.hashToScalar (challengeTranscript va.genesis X (σ.toList.take 32) m₁) "schnorr" =
        cs.hashToScalar (challengeTranscript vb.genesis X (σ.toList.take 32) m₂) "schnorr" ∧
      challengeTranscript va.genesis X (σ.toList.take 32) m₁ ≠
        challengeTranscript vb.genesis X (σ.toList.take 32) m₂ :=
  ⟨challenge_eq_of_verify cs hX ha hb, fun h => by
    obtain ⟨hg, hm⟩ := challengeTranscript_injective h
    exact hne (by rw [hg, hm])⟩

theorem verify_binds_message_constant :
    let cs := small Signer.constantChallenge
    let v : Validators := ⟨Bytes.zeros 32, 1, [(smallEncode 1, 1)], []⟩
    let σ := (smallEncode 0).append (smallEncode 1)
    (v.genesis, ([] : List UInt8)) ≠ (v.genesis, [0]) ∧ cs.readG (smallEncode 1) ≠ some 0 ∧
      v.verify cs (smallEncode 1) [] σ = true ∧ v.verify cs (smallEncode 1) [0] σ = true ∧
      cs.hashToScalar (challengeTranscript v.genesis (smallEncode 1) (σ.toList.take 32) [])
          "schnorr" =
        cs.hashToScalar (challengeTranscript v.genesis (smallEncode 1) (σ.toList.take 32) [0])
          "schnorr" := by
  refine ⟨?hne, ?hX, ?ha, ?hb,
    (verify_binds_message _ _ _ _ _ _ _ ?hne ?hX ?ha ?hb).1⟩ <;> decide

/-- **Replay isolation, up to a collision.** A signature that verifies for the same
validator and message under two different chain identities, the case of one message of
`verify_binds_message`, makes the challenge hash agree
on the two distinct transcripts, provided the validator's id does not decode to the
identity point. -/
theorem verify_replay_needs_collision (va vb : Validators) (X : Bytes 32) (m : List UInt8)
    (σ : Bytes 64) (hg : va.genesis ≠ vb.genesis) (hX : cs.readG X ≠ some 0)
    (ha : va.verify cs X m σ = true) (hb : vb.verify cs X m σ = true) :
    cs.hashToScalar (challengeTranscript va.genesis X (σ.toList.take 32) m) "schnorr" =
        cs.hashToScalar (challengeTranscript vb.genesis X (σ.toList.take 32) m) "schnorr" ∧
      challengeTranscript va.genesis X (σ.toList.take 32) m ≠
        challengeTranscript vb.genesis X (σ.toList.take 32) m :=
  verify_binds_message cs va vb X m m σ (fun h => hg (congrArg Prod.fst h)) hX ha hb

theorem verify_replay_needs_collision_constant :
    let cs := small Signer.constantChallenge
    let va : Validators := ⟨Bytes.zeros 32, 1, [(smallEncode 1, 1)], []⟩
    let vb : Validators := ⟨smallEncode 1, 1, [(smallEncode 1, 1)], []⟩
    let σ := (smallEncode 0).append (smallEncode 1)
    va.genesis ≠ vb.genesis ∧ cs.readG (smallEncode 1) ≠ some 0 ∧
      va.verify cs (smallEncode 1) [] σ = true ∧ vb.verify cs (smallEncode 1) [] σ = true ∧
      cs.hashToScalar (challengeTranscript va.genesis (smallEncode 1) (σ.toList.take 32) [])
          "schnorr" =
        cs.hashToScalar (challengeTranscript vb.genesis (smallEncode 1) (σ.toList.take 32) [])
          "schnorr" := by
  refine ⟨?hg, ?hX, ?ha, ?hb,
    (verify_replay_needs_collision _ _ _ _ _ _ ?hg ?hX ?ha ?hb).1⟩ <;> decide

/-- For a member whose id encodes the identity point, `verify` accepts `(s · G, s)` on every
message under every chain identity: the challenge multiplies the identity and drops out. -/
lemma verify_identity (v : Validators) (msg : List UInt8) (s : F)
    (hmem : v.containsKey (cs.toBytes 0) = true) :
    v.verify cs (cs.toBytes 0) msg (SchnorrSignature.serialize cs ⟨s • cs.generator, s⟩) =
      true :=
  (verify_eq_true_iff cs).2 ⟨hmem, _, _, cs.readG_toBytes _,
    SchnorrSignature.read_serialize cs _, by simp [SchnorrSignature.verify]⟩

/-- A transcript challenge that reads the first byte of the chain identity. -/
def genesisChallenge : RecommendedTranscript → String → Bytes 64 := fun t _ =>
  ⟨(match t.members with
    | _ :: .message _ (x :: _) :: _ => x
    | _ => 0) :: List.replicate 63 0, rfl⟩

/-- Two chains whose challenges differ both accept one signature for the identity point. -/
theorem verify_replay_identity :
    let cs := small genesisChallenge
    let va : Validators := ⟨Bytes.zeros 32, 1, [(smallEncode 0, 1)], []⟩
    let vb : Validators := ⟨smallEncode 1, 1, [(smallEncode 0, 1)], []⟩
    let σ := SchnorrSignature.serialize cs ⟨(0 : ZMod 3) • cs.generator, 0⟩
    va.genesis ≠ vb.genesis ∧ va.verify cs (smallEncode 0) [] σ = true ∧
      vb.verify cs (smallEncode 0) [] σ = true ∧
      cs.hashToScalar (challengeTranscript va.genesis (smallEncode 0) (σ.toList.take 32) [])
          "schnorr" ≠
        cs.hashToScalar (challengeTranscript vb.genesis (smallEncode 0) (σ.toList.take 32) [])
          "schnorr" :=
  ⟨by decide, verify_identity _ _ _ _ (by decide), verify_identity _ _ _ _ (by decide),
    by decide⟩

/-! ### `verify_aggregate` -/

lemma verifyAggregate_cons (v : Validators) (id : Bytes 32) (ids : List (Bytes 32))
    (msg : List UInt8) (sig : Bytes 64) (sigs : List (Bytes 64)) :
    v.verifyAggregate cs (id :: ids) msg (sig :: sigs) =
      (v.verify cs id msg sig && v.verifyAggregate cs ids msg sigs) := rfl

/-- An aggregate of no signatures passes `verify_aggregate` for every signer list. -/
theorem verifyAggregate_aggregate_nil (v : Validators) (signers : List (Bytes 32))
    (msg : List UInt8) : v.verifyAggregate cs signers msg (aggregate []) = true := by
  simp [verifyAggregate, aggregate]

/-- **A commit of honest signers verifies.** When every signer is of the validator set's chain
and every id they give is a member, the ids and the signatures collected from them pass
`verify_aggregate`. -/
theorem verifyAggregate_of_sign [DecidableEq F] (v : Validators) (msg : List UInt8) :
    ∀ (signers : List (Signer F)) (ids : List (Bytes 32)) (sigs : List (Bytes 64)),
      signers.mapM (Signer.validatorId cs) = some ids →
      signers.mapM (fun s => s.sign cs msg) = some sigs →
      (∀ s ∈ signers, s.genesis = v.genesis) → (∀ id ∈ ids, v.containsKey id = true) →
      v.verifyAggregate cs ids msg (aggregate sigs) = true
  | [], _, _, hids, _, _, _ => by cases hids; rfl
  | s :: signers, _, _, hids, hsigs, hg, hmem => by
    obtain ⟨id, ids, hid, hids', rfl⟩ := mapM_cons_eq_some.1 hids
    obtain ⟨sig, sigs, hsig, hsigs', rfl⟩ := mapM_cons_eq_some.1 hsigs
    rw [aggregate, verifyAggregate_cons, Bool.and_eq_true]
    exact ⟨verify_eq_true_of_sign cs hsig hid (hg s (.head _)).symm (hmem id (.head _)),
      verifyAggregate_of_sign v msg signers ids sigs hids' hsigs' (fun s h => hg s (.tail _ h))
        (fun id h => hmem id (.tail _ h))⟩

theorem verifyAggregate_of_sign_two :
    let cs := small Signer.constantChallenge
    let signers : List (Signer (ZMod 3)) := [⟨Bytes.zeros 32, 1⟩, ⟨Bytes.zeros 32, 2⟩]
    let v : Validators := ⟨Bytes.zeros 32, 2, [(smallEncode 1, 1), (smallEncode 2, 1)],
      [smallEncode 1, smallEncode 2]⟩
    signers.mapM (Signer.validatorId cs) = some [smallEncode 1, smallEncode 2] ∧
      signers.mapM (fun s => s.sign cs []) =
        some [(smallEncode 1).append (smallEncode 2), (smallEncode 1).append (smallEncode 0)] ∧
      v.verifyAggregate cs [smallEncode 1, smallEncode 2] []
        (aggregate [(smallEncode 1).append (smallEncode 2),
          (smallEncode 1).append (smallEncode 0)]) = true := by
  refine ⟨?hids, ?hsigs, verifyAggregate_of_sign _ _ [] _ _ _ ?hids ?hsigs ?hg ?hmem⟩ <;> decide

end Validators

end Serai.Tributary
