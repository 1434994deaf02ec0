import Serai.Tributary.Validators

/-!
# The proposer schedule

`proposer` of the `Weights` implementation in `tendermint.rs`: the proposer of round
`round` at height `block` is `robin[(block + offset) % robin.len()]`, where the offset is
`0` at round zero and `round + robin.len() / 2` after it.

## The model

The sum is taken in `usize`. `usizeAdd` is that addition under the two build profiles: a
panic on overflow when overflow checks are on, wrapping otherwise. A panic is `none`.
`usizeSum` is the offset and its sum with the height in `usize`, the only part of `proposer`
that can fail or wrap (`proposer_eq_bind`). `proposerIndex` is the index in exact arithmetic,
the spec's formula; `proposer_eq` says `proposer` computes it whenever the sum fits in a
`usize`.

## Main results

* `proposer_round_zero`: at round zero the proposer is `robin[block % n]`, with no overflow;
* `proposer_window`: at one round, `n` consecutive heights take `n` distinct positions that
  cover the schedule, so every id proposes as often as it occurs in `robin`;
* `proposer_window_member`: so every member proposes in every window of `n` heights;
* `proposer_first_rounds`: while the sums fit, the first `n` rounds of a height take
  distinct positions, except that round `n - n / 2` comes back to round zero's;
* `proposer_next_step`: while the sums fit, when the next round, or round zero of the next
  height, takes the same position as the current one;
* `proposer_debug_isSome_iff`, `proposer_release`: what `proposer` returns under each profile,
  for every height and round, and `proposer_debug_eq_release`: the two agree wherever the
  checked build does not panic;
* `proposer_last_height`: at the last `u64` height the sum overflows.
-/

namespace Serai.Tributary

/-- The engine's `BlockNumber`, a `u64`. -/
structure BlockNumber where
  val : UInt64

/-- The engine's `RoundNumber`, a `u32`. -/
structure RoundNumber where
  val : UInt32

/-- The height `n`, read as a `u64`. -/
def BlockNumber.ofNat (n : ℕ) : BlockNumber := ⟨UInt64.ofNat n⟩

/-! ### `usize` arithmetic -/

/-- `usize::MAX + 1` on the 64-bit targets the coordinator runs on. -/
def usizeModulus : ℕ := 2 ^ 64

/-- `usize::try_from`, then `unwrap`. -/
def usizeTryFrom (x : ℕ) : Option ℕ := if x < usizeModulus then some x else none

/-- `a + b` on `usize`. -/
def usizeAdd : Profile → ℕ → ℕ → Option ℕ
  | p, a, b =>
    if a + b < usizeModulus then some (a + b)
    else match p with
      | .debug => none
      | .release => some ((a + b) % usizeModulus)

/-- `a % n` on `usize`, which panics when `n = 0`. -/
def usizeRem (a n : ℕ) : Option ℕ := if n = 0 then none else some (a % n)

lemma usizeAdd_of_lt {p : Profile} {a b : ℕ} (h : a + b < usizeModulus) :
    usizeAdd p a b = some (a + b) := if_pos h

lemma usizeTryFrom_of_lt {x : ℕ} (h : x < usizeModulus) : usizeTryFrom x = some x := if_pos h

lemma usizeAdd_release (a b : ℕ) : usizeAdd .release a b = some ((a + b) % usizeModulus) := by
  by_cases h : a + b < usizeModulus
  · rw [usizeAdd_of_lt h, Nat.mod_eq_of_lt h]
  · exact if_neg h

lemma usizeAdd_debug_of_le {a b : ℕ} (h : usizeModulus ≤ a + b) : usizeAdd .debug a b = none :=
  if_neg (not_lt.2 h)

/-! ### `proposer` -/

namespace Weights

/-- `proposer`. -/
def proposer (p : Profile) (v : Validators) (block : BlockNumber) (round : RoundNumber) :
    Option (Bytes 32) := do
  let block ← usizeTryFrom block.val.toNat
  let round ← usizeTryFrom round.val.toNat
  let offset ← if round = 0 then pure 0 else usizeAdd p round (v.robin.length / 2)
  let index ← usizeRem (← usizeAdd p block offset) v.robin.length
  v.robin[index]?

end Weights

/-- The offset of a round: none at round zero, half the schedule past the round after it. -/
def roundOffset (n round : ℕ) : ℕ := if round = 0 then 0 else round + n / 2

/-- The schedule position of `(block, round)` in exact arithmetic, the spec's formula. -/
def proposerIndex (n block round : ℕ) : ℕ := (block + roundOffset n round) % n

@[simp] lemma roundOffset_zero (n : ℕ) : roundOffset n 0 = 0 := rfl

lemma roundOffset_of_pos {n r : ℕ} (h : 0 < r) : roundOffset n r = r + n / 2 :=
  if_neg (Nat.pos_iff_ne_zero.1 h)

lemma toNat_lt_usizeModulus (x : UInt64) : x.toNat < usizeModulus := x.toNat_lt_size

lemma roundNumber_lt_usizeModulus (r : RoundNumber) : r.val.toNat < usizeModulus :=
  r.val.toNat_lt_size.trans (by decide)

/-- The offset, then its sum with the height, as `proposer` computes them in `usize`. -/
def usizeSum (p : Profile) (n block round : ℕ) : Option ℕ :=
  (if round = 0 then some 0 else usizeAdd p round (n / 2)).bind (usizeAdd p block)

/-- `proposer` reads the height and the round without failing, and indexing after `usize`'s
`%` is indexing modulo the length: all that can fail or wrap is `usizeSum`. -/
lemma proposer_eq_bind (p : Profile) (v : Validators) (block : BlockNumber)
    (round : RoundNumber) :
    Weights.proposer p v block round =
      (usizeSum p v.robin.length block.val.toNat round.val.toNat).bind
        fun s => v.robin[s % v.robin.length]? := by
  have hrem : ∀ s, (usizeRem s v.robin.length).bind (v.robin[·]?) =
      v.robin[s % v.robin.length]? := fun s => by
    by_cases hn : v.robin = [] <;> simp [usizeRem, hn]
  simp only [Weights.proposer, usizeSum, usizeTryFrom_of_lt (toNat_lt_usizeModulus _),
    usizeTryFrom_of_lt (roundNumber_lt_usizeModulus _), Option.pure_def, Option.bind_eq_bind,
    Option.some_bind, Option.bind_assoc, hrem]
  split_ifs <;> rfl

lemma usizeSum_of_lt (p : Profile) {n b r : ℕ} (h : b + roundOffset n r < usizeModulus) :
    usizeSum p n b r = some (b + roundOffset n r) := by
  unfold usizeSum roundOffset at *
  split_ifs at * with hr
  · exact usizeAdd_of_lt h
  · rw [usizeAdd_of_lt (by omega), Option.some_bind, usizeAdd_of_lt h]

lemma usizeSum_release (n b r : ℕ) :
    usizeSum .release n b r = some ((b + roundOffset n r) % usizeModulus) := by
  unfold usizeSum roundOffset
  split_ifs <;> simp [usizeAdd_release]

lemma usizeSum_debug_of_le {n b r : ℕ} (h : usizeModulus ≤ b + roundOffset n r) :
    usizeSum .debug n b r = none := by
  unfold usizeSum roundOffset at *
  split_ifs at * with hr
  · exact usizeAdd_debug_of_le h
  · by_cases h' : r + n / 2 < usizeModulus
    · rw [usizeAdd_of_lt h', Option.some_bind, usizeAdd_debug_of_le h]
    · rw [usizeAdd_debug_of_le (not_lt.1 h'), Option.none_bind]

/-- **`proposer` computes the spec's index** whenever `block + offset` fits in a `usize`,
under either profile. -/
theorem proposer_eq (p : Profile) (v : Validators) (block : BlockNumber) (round : RoundNumber)
    (hfit : block.val.toNat + roundOffset v.robin.length round.val.toNat < usizeModulus) :
    Weights.proposer p v block round =
      v.robin[proposerIndex v.robin.length block.val.toNat round.val.toNat]? := by
  rw [proposer_eq_bind, usizeSum_of_lt p hfit, Option.some_bind, proposerIndex]

/-- **Round zero depends only on the height modulo the schedule's length.** No addition can
overflow at round zero, so `proposer` returns `robin[block % n]`, under either profile. -/
theorem proposer_round_zero (p : Profile) (v : Validators) (block : BlockNumber) :
    Weights.proposer p v block ⟨0⟩ = v.robin[block.val.toNat % v.robin.length]? := by
  rw [proposer_eq p v block ⟨0⟩ (by simpa using toNat_lt_usizeModulus _)]
  simp [proposerIndex]

/-! ### Positions modulo the schedule length -/

lemma add_mod_eq_add_mod_iff {n b x y : ℕ} : (b + x) % n = (b + y) % n ↔ x % n = y % n :=
  ⟨Nat.ModEq.add_left_cancel' b, Nat.ModEq.add_left b⟩

/-- Below `2 * n`, reducing modulo `n` subtracts `n` at most once. -/
lemma mod_eq_of_lt_two_mul {x n : ℕ} (h : x < 2 * n) : x % n = if x < n then x else x - n := by
  split_ifs with hx
  · exact Nat.mod_eq_of_lt hx
  · rw [Nat.mod_eq_sub_mod (not_lt.1 hx), Nat.mod_eq_of_lt (by omega)]

lemma add_one_mod_ne {n : ℕ} (hn : 2 ≤ n) (x : ℕ) : (x + 1) % n ≠ x % n := fun h => by
  have := (@add_mod_eq_add_mod_iff n x 1 0).1 (by rwa [Nat.add_zero])
  rw [Nat.mod_eq_of_lt hn, Nat.zero_mod] at this
  exact one_ne_zero this

/-- `n` consecutive values modulo `n` are `0, …, n - 1` in some order. -/
lemma range_map_add_mod_perm {n : ℕ} (c : ℕ) (hn : 0 < n) :
    ((List.range n).map fun i => (c + i) % n).Perm (List.range n) := by
  have hinj : ∀ i ∈ List.range n, ∀ j ∈ List.range n, (c + i) % n = (c + j) % n → i = j := by
    intro i hi j hj h
    rw [List.mem_range] at hi hj
    rwa [add_mod_eq_add_mod_iff, Nat.mod_eq_of_lt hi, Nat.mod_eq_of_lt hj] at h
  refine ((List.nodup_range n).map_on hinj).subperm (fun x hx => ?_) |>.perm_of_length_le
    (by simp)
  obtain ⟨i, -, rfl⟩ := List.mem_map.1 hx
  exact List.mem_range.2 (Nat.mod_lt _ hn)

lemma range_map_getElem? {α : Type} (l : List α) :
    (List.range l.length).map (fun j => l[j]?) = l.map some :=
  List.ext_getElem (by simp) fun i _ _ => by simp

/-! ### A window of heights -/

/-- At a fixed round, `n` consecutive heights take the `n` positions in some order. -/
lemma proposerIndex_window_perm {n : ℕ} (b₀ r : ℕ) (hn : 0 < n) :
    ((List.range n).map fun i => proposerIndex n (b₀ + i) r).Perm (List.range n) := by
  have hpos : ((List.range n).map fun i => proposerIndex n (b₀ + i) r) =
      (List.range n).map fun i => (b₀ + roundOffset n r + i) % n :=
    List.map_congr_left fun i _ => by rw [proposerIndex, Nat.add_right_comm]
  exact hpos ▸ range_map_add_mod_perm (b₀ + roundOffset n r) hn

/-- At a fixed round, the proposers of `n` consecutive heights are the schedule's entries in
some order, when no sum overflows. -/
lemma proposer_window_perm (p : Profile) (v : Validators) (round : RoundNumber) (b₀ : ℕ)
    (hn : v.robin ≠ [])
    (hfit : b₀ + v.robin.length - 1 + round.val.toNat + v.robin.length / 2 < usizeModulus) :
    ((List.range v.robin.length).map fun i =>
      Weights.proposer p v (BlockNumber.ofNat (b₀ + i)) round).Perm (v.robin.map some) := by
  set n := v.robin.length
  set r := round.val.toNat
  rw [← range_map_getElem?]
  refine List.Perm.trans (List.Perm.of_eq ?_)
    ((proposerIndex_window_perm b₀ r (List.length_pos.2 hn)).map fun j => v.robin[j]?)
  rw [List.map_map]
  refine List.map_congr_left fun i hi => ?_
  have hi : i < n := List.mem_range.1 hi
  have hb : (BlockNumber.ofNat (b₀ + i)).val.toNat = b₀ + i :=
    UInt64.toNat_ofNat_of_lt (by unfold usizeModulus at hfit; simp only [UInt64.size]; omega)
  have hfit' : b₀ + i + roundOffset n r < usizeModulus := by
    unfold roundOffset; split_ifs <;> omega
  rw [proposer_eq p v _ round (by rw [hb]; exact hfit'), hb]
  rfl

/-- **Each id proposes as often as it occurs in the schedule.** At a fixed round, the `n`
heights `b₀, …, b₀ + n - 1` take `n` distinct positions covering `0, …, n - 1`; so the
window's proposers are the schedule's entries in some order, and each id proposes at as
many of the heights as it occurs in `robin`. -/
theorem proposer_window (p : Profile) (v : Validators) (round : RoundNumber) (b₀ : ℕ)
    (hn : v.robin ≠ [])
    (hfit : b₀ + v.robin.length - 1 + round.val.toNat + v.robin.length / 2 < usizeModulus) :
    ((List.range v.robin.length).map fun i =>
        proposerIndex v.robin.length (b₀ + i) round.val.toNat).Perm
        (List.range v.robin.length) ∧
      ((List.range v.robin.length).map fun i =>
        Weights.proposer p v (BlockNumber.ofNat (b₀ + i)) round).Perm (v.robin.map some) ∧
      ∀ id, ((List.range v.robin.length).filter fun i =>
        Weights.proposer p v (BlockNumber.ofNat (b₀ + i)) round = some id).length =
          v.robin.count id := by
  have hall := proposer_window_perm p v round b₀ hn hfit
  refine ⟨proposerIndex_window_perm b₀ _ (List.length_pos.2 hn), hall, fun id => ?_⟩
  have := hall.countP_eq fun x => decide (x = some id)
  rw [List.countP_map, List.countP_map] at this
  rw [← List.countP_eq_length_filter, List.count]
  simpa [Function.comp_def] using this

theorem proposer_window_three :
    let v : Validators := ⟨Bytes.zeros 32, 3, [], [smallEncode 0, smallEncode 1, smallEncode 2]⟩
    v.robin ≠ [] ∧
      10 + v.robin.length - 1 + (1 : UInt32).toNat + v.robin.length / 2 < usizeModulus ∧
      ((List.range 3).map fun i => Weights.proposer .debug v (BlockNumber.ofNat (10 + i)) ⟨1⟩).Perm
        (v.robin.map some) := by
  refine ⟨?hn, ?hfit, (proposer_window .debug _ ⟨1⟩ 10 ?hn ?hfit).2.1⟩ <;> decide

/-- **Every member proposes in every window.** When the schedule lists exactly the members,
each member proposes at one of any `n` consecutive heights, at every round, as long as no
sum overflows. -/
theorem proposer_window_member (p : Profile) (v : Validators) (round : RoundNumber) (b₀ : ℕ)
    (hv : v.ScheduleCoversMembers) (hn : v.robin ≠ [])
    (hfit : b₀ + v.robin.length - 1 + round.val.toNat + v.robin.length / 2 < usizeModulus)
    (id : Bytes 32) (hid : v.containsKey id = true) :
    ∃ i < v.robin.length, Weights.proposer p v (BlockNumber.ofNat (b₀ + i)) round = some id := by
  have hmem : some id ∈ v.robin.map some := List.mem_map_of_mem _ (hv.mem_robin_iff.2 hid)
  obtain ⟨i, hi, he⟩ := List.mem_map.1 ((proposer_window_perm p v round b₀ hn hfit).mem_iff.2 hmem)
  exact ⟨i, List.mem_range.1 hi, he⟩

theorem proposer_window_member_three :
    let v : Validators := ⟨Bytes.zeros 32, 3, [(smallEncode 0, 1), (smallEncode 1, 1),
      (smallEncode 2, 1)], [smallEncode 0, smallEncode 1, smallEncode 2]⟩
    v.ScheduleCoversMembers ∧ v.containsKey (smallEncode 1) = true ∧
      ∃ i < v.robin.length,
        Weights.proposer .debug v (BlockNumber.ofNat (10 + i)) ⟨1⟩ = some (smallEncode 1) := by
  refine ⟨?hv, ?hid, proposer_window_member .debug _ ⟨1⟩ 10 ?hv ?hn ?hfit _ ?hid⟩ <;> decide

/-! ### The rounds of one height -/

lemma roundOffset_le (n r : ℕ) : roundOffset n r ≤ r + n / 2 := by
  unfold roundOffset; split_ifs <;> omega

/-- With `n ≥ 2` entries, the next round of a height takes the same position only for `n = 2`
at round zero; round zero of the next height takes the position of round `r` exactly when
`r > 0` and `(r + n / 2) % n = 1`. -/
lemma proposerIndex_next_step (n b r : ℕ) (hn : 2 ≤ n) :
    (proposerIndex n b (r + 1) = proposerIndex n b r ↔ n = 2 ∧ r = 0) ∧
      (proposerIndex n (b + 1) 0 = proposerIndex n b r ↔ 0 < r ∧ (r + n / 2) % n = 1) := by
  constructor
  · -- a round change
    rcases Nat.eq_zero_or_pos r with rfl | hr
    · rw [proposerIndex, proposerIndex, roundOffset_of_pos Nat.one_pos, roundOffset_zero,
        add_mod_eq_add_mod_iff, Nat.zero_mod, mod_eq_of_lt_two_mul (by omega)]
      split_ifs <;> omega
    · rw [proposerIndex, proposerIndex, roundOffset_of_pos (Nat.succ_pos r),
        roundOffset_of_pos hr, show b + (r + 1 + n / 2) = b + (r + n / 2) + 1 by omega]
      exact iff_of_false (add_one_mod_ne hn _) (by omega)
  · -- a commit at round `r`
    rw [proposerIndex, proposerIndex, roundOffset_zero, Nat.add_zero, add_mod_eq_add_mod_iff,
      Nat.mod_eq_of_lt hn]
    rcases Nat.eq_zero_or_pos r with rfl | hr
    · simp
    · simp [roundOffset_of_pos hr, hr, eq_comm]

/-- **When a position proposes twice in a row.** When `block + round + 1 + n / 2` fits in a
`usize`, `proposer` returns the entries at the spec's positions for `(block, round)`, for the
next round `(block, round + 1)` and for round zero of the next height, under either profile.
With `n ≥ 2` entries, the next round takes the same position only for `n = 2` at round zero,
and round zero of the next height takes the position of round `r` exactly when `r > 0` and
`(r + n / 2) % n = 1`. -/
theorem proposer_next_step (p : Profile) (v : Validators) (block block' : BlockNumber)
    (round round' : RoundNumber) (hn : 2 ≤ v.robin.length)
    (hblock : block'.val.toNat = block.val.toNat + 1)
    (hround : round'.val.toNat = round.val.toNat + 1)
    (hfit : block.val.toNat + round.val.toNat + 1 + v.robin.length / 2 < usizeModulus) :
    Weights.proposer p v block round =
        v.robin[proposerIndex v.robin.length block.val.toNat round.val.toNat]? ∧
      Weights.proposer p v block round' =
        v.robin[proposerIndex v.robin.length block.val.toNat (round.val.toNat + 1)]? ∧
      Weights.proposer p v block' ⟨0⟩ =
        v.robin[proposerIndex v.robin.length (block.val.toNat + 1) 0]? ∧
      (proposerIndex v.robin.length block.val.toNat (round.val.toNat + 1) =
          proposerIndex v.robin.length block.val.toNat round.val.toNat ↔
        v.robin.length = 2 ∧ round.val.toNat = 0) ∧
      (proposerIndex v.robin.length (block.val.toNat + 1) 0 =
          proposerIndex v.robin.length block.val.toNat round.val.toNat ↔
        0 < round.val.toNat ∧ (round.val.toNat + v.robin.length / 2) % v.robin.length = 1) := by
  have h₀ := roundOffset_le v.robin.length round.val.toNat
  have h₁ : roundOffset v.robin.length round'.val.toNat =
      round.val.toNat + 1 + v.robin.length / 2 := by
    rw [hround, roundOffset_of_pos (Nat.succ_pos _)]
  refine ⟨proposer_eq p v block round (by omega), ?_, ?_, proposerIndex_next_step _ _ _ hn⟩
  · rw [proposer_eq p v block round' (by omega), hround]
  · rw [proposer_eq p v block' ⟨0⟩ (by simp [hblock]; omega), hblock]
    rfl

/-- With two entries, round 1 of height 10 takes round 0's position. -/
theorem proposer_next_step_two :
    let v : Validators := ⟨Bytes.zeros 32, 2, [], [smallEncode 0, smallEncode 1]⟩
    2 ≤ v.robin.length ∧ (11 : UInt64).toNat = (10 : UInt64).toNat + 1 ∧
      (1 : UInt32).toNat = (0 : UInt32).toNat + 1 ∧
      (10 : UInt64).toNat + (0 : UInt32).toNat + 1 + v.robin.length / 2 < usizeModulus ∧
      (proposerIndex 2 10 (0 + 1) = proposerIndex 2 10 0 ↔ 2 = 2 ∧ 0 = 0) ∧
      Weights.proposer .debug v ⟨10⟩ ⟨1⟩ = Weights.proposer .debug v ⟨10⟩ ⟨0⟩ := by
  refine ⟨?hn, ?hb, ?hr, ?hfit,
    (proposer_next_step .debug _ ⟨10⟩ ⟨11⟩ ⟨0⟩ ⟨1⟩ ?hn ?hb ?hr ?hfit).2.2.2.1, ?_⟩ <;> decide

/-! ### The top of the height range -/

/-- **When `proposer` panics** under overflow checks: exactly when the schedule is empty or
`block + offset` does not fit in a `usize`. -/
theorem proposer_debug_isSome_iff (v : Validators) (block : BlockNumber) (round : RoundNumber) :
    (Weights.proposer .debug v block round).isSome ↔
      v.robin ≠ [] ∧
        block.val.toNat + roundOffset v.robin.length round.val.toNat < usizeModulus := by
  rw [proposer_eq_bind]
  by_cases hfit : block.val.toNat + roundOffset v.robin.length round.val.toNat < usizeModulus
  · rw [usizeSum_of_lt .debug hfit, Option.some_bind]
    by_cases hn : v.robin = []
    · simp [hn]
    · simp [List.getElem?_eq_getElem (Nat.mod_lt _ (List.length_pos.2 hn)), hn, hfit]
  · simp [usizeSum_debug_of_le (not_lt.1 hfit), hfit]

/-- **Without overflow checks** `proposer` wraps the sum: it returns the entry at
`((block + offset) mod 2^64) mod n`, for every height and round. -/
theorem proposer_release (v : Validators) (block : BlockNumber) (round : RoundNumber) :
    Weights.proposer .release v block round =
      v.robin[(block.val.toNat + roundOffset v.robin.length round.val.toNat) % usizeModulus %
        v.robin.length]? := by
  rw [proposer_eq_bind, usizeSum_release, Option.some_bind]

/-- **The profiles differ only where overflow checks panic.** Whenever the checked build
returns a proposer, the wrapping build returns the same one. -/
theorem proposer_debug_eq_release (v : Validators) (block : BlockNumber) (round : RoundNumber) :
    Weights.proposer .debug v block round = none ∨
      Weights.proposer .debug v block round = Weights.proposer .release v block round := by
  rw [proposer_eq_bind, proposer_eq_bind]
  by_cases hfit : block.val.toNat + roundOffset v.robin.length round.val.toNat < usizeModulus
  · rw [usizeSum_of_lt .debug hfit, usizeSum_of_lt .release hfit]
    exact .inr rfl
  · rw [usizeSum_debug_of_le (not_lt.1 hfit), Option.none_bind]
    exact .inl rfl

/-- **The sum overflows at the last height.** At height `u64::MAX` and round 1,
`block + round + robin.len() / 2` does not fit in a `usize`: `proposer` panics under
overflow checks, for every validator set, and with wrapping arithmetic a schedule of three
entries names its second entry where the spec's index formula names the third. -/
theorem proposer_last_height (v : Validators) (a b c : Bytes 32) :
    Weights.proposer .debug v ⟨UInt64.ofNat (2 ^ 64 - 1)⟩ ⟨1⟩ = none ∧
      Weights.proposer .release { v with robin := [a, b, c] } ⟨UInt64.ofNat (2 ^ 64 - 1)⟩ ⟨1⟩ =
        some b ∧
      proposerIndex 3 (2 ^ 64 - 1) 1 = 2 := by
  refine ⟨?_, ?_, by decide⟩
  · rw [proposer_eq_bind, usizeSum_debug_of_le (by simp [roundOffset, usizeModulus]; omega),
      Option.none_bind]
  · simp [proposer_release, roundOffset, usizeModulus]

end Serai.Tributary
