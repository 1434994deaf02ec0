import Serai.Bytes

/-!
# Re-serialising the chain

`coins/monero/src/bin/reserialize_chain.rs` walks the Monero chain from a given height:
`check_block` fetches a block and its transactions from a node and checks that they
re-serialise and re-hash to what the node sent, and `main` spawns these checks in height
order over a round-robin of nodes, keeping at most `async_parallelism` of them running.

## The model

This module holds `main`'s loop and the batches `check_block` asks for;
`Serai.Monero.CheckBlock` models the rest of `check_block`, and `Serai.Monero.ReserializeMain`
what `main` does before its loop. A check is known by the block it checks. Whether it
completes without panicking (`ok`), whether a sweep sees it finished (`finished`), and the
answers of `get_height` (a list, a finite prefix of the run: a height, or `none` for a failed
call) are answers of the environment, so every result holds for all of them. `swap_remove`
is the `Vec` operation, with its order. A panic is `none`.

## Main results

* `getTransactionsBatches_spec`: every hash of the block is asked for once, in order, in
  calls of one to a hundred hashes;
* `reachable_bounded`: in every state the loop reaches, at most `async_parallelism` checks
  run, and the running and the awaited checks are the blocks spawned so far, each once;
* `run_exited`: what `main` returning certifies: every block up to the last height passed
  its check or is among the at most `async_parallelism` checks still running, which are
  never awaited (`run_exited_one`: one of them may have failed);
* `run_panicked`: whatever the schedule, the loop panics only without parallelism, on a
  failed check, or on a failed call of `get_height`;
* `run_parallelism_zero`: with `async_parallelism` zero, `main` panics at the first height
  above the start block.
-/

namespace Serai.Monero.ReserializeChain

/-! ### `Vec::swap_remove` -/

/-- `Vec::swap_remove` at an index in bounds: the element there, and the vector with its last
element moved into that place. -/
def swapRemoveAt {α : Type} (v : List α) (i : ℕ) (h : i < v.length) : α × List α :=
  (v[i], (v.set i (v.getLast (List.ne_nil_of_length_pos (Nat.zero_lt_of_lt h)))).dropLast)

/-- `Vec::swap_remove`; `none` is the panic of an index past the end. -/
def swapRemove {α : Type} (v : List α) (i : ℕ) : Option (α × List α) :=
  if h : i < v.length then some (swapRemoveAt v i h) else none

lemma swapRemoveAt_length {α : Type} (v : List α) (i : ℕ) (h : i < v.length) :
    (swapRemoveAt v i h).2.length + 1 = v.length := by
  simp [swapRemoveAt]; omega

lemma cons_set_perm {α : Type} (u : List α) (z : α) {i : ℕ} (h : i < u.length) :
    (u[i] :: u.set i z).Perm (u ++ [z]) := by
  rw [List.set_eq_take_append_cons_drop, if_pos h]
  conv_rhs => rw [← List.take_append_drop i u, List.drop_eq_getElem_cons h]
  calc List.Perm (u[i] :: (u.take i ++ z :: u.drop (i + 1)))
        (u.take i ++ u[i] :: z :: u.drop (i + 1)) := List.perm_middle.symm
      _ = (u.take i ++ [u[i]]) ++ z :: u.drop (i + 1) := by
        rw [List.append_assoc, List.singleton_append]
      List.Perm _ ((u.take i ++ [u[i]]) ++ (u.drop (i + 1) ++ [z])) :=
        (List.perm_append_singleton z _).symm.append_left _
      _ = (u.take i ++ u[i] :: u.drop (i + 1)) ++ [z] := by
        simp only [List.append_assoc, List.singleton_append, List.cons_append, List.nil_append]

/-- What `swap_remove` takes out and what it leaves are the vector's elements. -/
lemma swapRemoveAt_perm {α : Type} (v : List α) (i : ℕ) (h : i < v.length) :
    ((swapRemoveAt v i h).1 :: (swapRemoveAt v i h).2).Perm v := by
  have hv : v ≠ [] := List.ne_nil_of_length_pos (Nat.zero_lt_of_lt h)
  obtain ⟨u, z, rfl⟩ : ∃ u z, v = u ++ [z] := ⟨_, _, (List.dropLast_append_getLast hv).symm⟩
  simp only [swapRemoveAt, List.getLast_append_singleton]
  rcases Nat.lt_or_ge i u.length with hi | hi
  · rw [List.set_append_left _ _ hi, List.dropLast_concat, List.getElem_append_left hi]
    exact cons_set_perm u z hi
  · obtain rfl : i = u.length := by simp at h; omega
    simpa using (List.perm_append_singleton z u).symm

/-! ### `check_block`: the `get_transactions` calls -/

/-- The `txs_hashes` of the successive `get_transactions` calls of `check_block`: while hashes
are left, `drain(.. len.min(100))` takes the first hundred of them, or all if fewer. -/
def getTransactionsBatches {α : Type} : List α → List (List α)
  | [] => []
  | hash :: rest => (hash :: rest).take 100 :: getTransactionsBatches ((hash :: rest).drop 100)
termination_by hashes => hashes.length
decreasing_by simp only [List.length_drop, List.length_cons]; omega

lemma getTransactionsBatches_flatten {α : Type} (hashes : List α) :
    (getTransactionsBatches hashes).flatten = hashes := by
  induction hashes using getTransactionsBatches.induct with
  | case1 => simp [getTransactionsBatches]
  | case2 hash rest ih => rw [getTransactionsBatches, List.flatten_cons, ih, List.take_append_drop]

/-- **Every hash is asked for once.** The calls ask for the block's hashes in order, each
exactly once, at most a hundred and at least one per call, in `⌈n / 100⌉` calls. -/
theorem getTransactionsBatches_spec {α : Type} (hashes : List α) :
    (getTransactionsBatches hashes).flatten = hashes ∧
      (∀ batch ∈ getTransactionsBatches hashes, batch ≠ [] ∧ batch.length ≤ 100) ∧
      (getTransactionsBatches hashes).length = (hashes.length + 99) / 100 := by
  refine ⟨getTransactionsBatches_flatten hashes, ?_⟩
  induction hashes using getTransactionsBatches.induct with
  | case1 => simp [getTransactionsBatches]
  | case2 hash rest ih =>
    obtain ⟨hall, hlen⟩ := ih
    rw [getTransactionsBatches]
    refine ⟨fun batch hb => ?_, ?_⟩
    · rcases List.mem_cons.1 hb with rfl | hb
      · exact ⟨by simp, List.length_take_le _ _⟩
      · exact hall batch hb
    · rw [List.length_cons, hlen]
      simp only [List.length_drop, List.length_cons]
      omega

/-! ### `main`'s loop -/

/-- The variables of `main`'s loop: the next block to check, the index of the next node in
`rpcs`, the running checks (`handles`, by the block each one checks), the last height read,
and the checks awaited so far, in order (the model's record of the `.await`s). -/
structure State where
  blockI : ℕ
  rpcI : ℕ
  handles : List ℕ
  height : ℕ
  joined : List ℕ
  deriving DecidableEq

/-- The state before the first height is read: `block_i` from the command line, `rpc_i`
and `height` zero, no checks. -/
def initial (blockI : ℕ) : State := ⟨blockI, 0, [], 0, []⟩

/-- How `main` ends: it returns when `get_height` repeats the last height, it panics, or it
is still running when the answers of `get_height` run out. -/
inductive Outcome
  | exited (s : State)
  | running (s : State)
  | panicked
  deriving DecidableEq

section Loop

/-! `parallelism` is `async_parallelism` (and the length of `rpcs`); `ok b` says whether the
check of block `b` completes without panicking; `finished b h` whether the check of block `h`
is seen finished by the sweep made before spawning block `b`. -/

variable (parallelism : ℕ) (ok : ℕ → Bool) (finished : ℕ → ℕ → Bool)

/-- The loop `while i < handles.len()`: a check seen finished is awaited
(`swap_remove(i).await.unwrap()`, which panics when the check did) and index `i` is looked at
again; otherwise the loop moves on. `joined` records the awaited checks. -/
def sweep (fin : ℕ → Bool) (handles joined : List ℕ) (i : ℕ) : Option (List ℕ × List ℕ) :=
  if h : i < handles.length then
    if fin handles[i] then
      if ok (swapRemoveAt handles i h).1 then
        sweep fin (swapRemoveAt handles i h).2 (joined ++ [(swapRemoveAt handles i h).1]) i
      else none
    else sweep fin handles joined (i + 1)
  else some (handles, joined)
termination_by 2 * handles.length - i
decreasing_by
  · have := swapRemoveAt_length handles i h; omega
  · omega

/-- The block `if handles.len() >= async_parallelism`: when the pool is full, await the first
check, then the finished ones. -/
def makeRoom (fin : ℕ → Bool) (handles joined : List ℕ) : Option (List ℕ × List ℕ) :=
  if parallelism ≤ handles.length then
    match swapRemove handles 0 with
    | none => none
    | some (first, rest) => if ok first then sweep ok fin rest (joined ++ [first]) 0 else none
  else some (handles, joined)

/-- One pass of `while block_i < height`: make room, spawn the check of `block_i` on
`rpcs[rpc_i]` (a panic past the end of `rpcs`), and move both counters on. -/
def spawnStep (s : State) : Option State :=
  match makeRoom parallelism ok (finished s.blockI) s.handles s.joined with
  | none => none
  | some (handles, joined) =>
    if s.rpcI < parallelism then
      some ⟨s.blockI + 1, (s.rpcI + 1) % parallelism, handles ++ [s.blockI], s.height, joined⟩
    else none

lemma spawnStep_eq_some {s s' : State} (h : spawnStep parallelism ok finished s = some s') :
    ∃ handles joined,
      makeRoom parallelism ok (finished s.blockI) s.handles s.joined = some (handles, joined) ∧
        s.rpcI < parallelism ∧
        s' = ⟨s.blockI + 1, (s.rpcI + 1) % parallelism, handles ++ [s.blockI], s.height,
          joined⟩ := by
  unfold spawnStep at h
  split at h
  · cases h
  · split_ifs at h with hr
    exact ⟨_, _, ‹_›, hr, (Option.some_injective _ h).symm⟩

/-- The loop `while block_i < height`. -/
def spawnLoop (s : State) : Option State :=
  if hlt : s.blockI < s.height then
    match h : spawnStep parallelism ok finished s with
    | none => none
    | some s' =>
      have : s'.height - s'.blockI < s.height - s.blockI := by
        obtain ⟨_, _, -, -, rfl⟩ := spawnStep_eq_some parallelism ok finished h
        exact Nat.sub_succ_lt_self _ _ hlt
      spawnLoop s'
  else some s
termination_by s.height - s.blockI

lemma spawnLoop_of_lt {s s' : State} (hlt : s.blockI < s.height)
    (h : spawnStep parallelism ok finished s = some s') :
    spawnLoop parallelism ok finished s = spawnLoop parallelism ok finished s' := by
  rw [spawnLoop, dif_pos hlt]
  split
  · simp_all
  · rename_i h'
    rw [h] at h'
    cases h'
    rfl

lemma spawnLoop_of_le {s : State} (hle : s.height ≤ s.blockI) :
    spawnLoop parallelism ok finished s = some s := by
  rw [spawnLoop, dif_neg (by omega)]

/-- The outer `loop`, given the successive answers of `get_height`: a height, or `none` for a
failed call, which `expect` turns into a panic. -/
def run (s : State) : List (Option ℕ) → Outcome
  | [] => .running s
  | none :: _ => .panicked
  | some newHeight :: rest =>
    if newHeight = s.height then .exited s
    else
      match spawnLoop parallelism ok finished { s with height := newHeight } with
      | none => .panicked
      | some s' => run s' rest

/-- A run on two lists of answers is the run on the first, continued on the second while
`main` is still running. -/
lemma run_append : ∀ (s : State) (pre post : List (Option ℕ)),
    run parallelism ok finished s (pre ++ post) =
      match run parallelism ok finished s pre with
      | .running s' => run parallelism ok finished s' post
      | o => o
  | _, [], _ => rfl
  | _, none :: _, _ => rfl
  | s, some newHeight :: rest, post => by
    simp only [List.cons_append, run]
    split_ifs
    · rfl
    · split
      · rfl
      · exact run_append _ rest post

/-! ### What one pass keeps -/

lemma sweep_spec (fin : ℕ → Bool) (handles joined : List ℕ) (i : ℕ) {handles' joined' : List ℕ}
    (hs : sweep ok fin handles joined i = some (handles', joined')) :
    ∃ removed, joined' = joined ++ removed ∧ (handles' ++ removed).Perm handles ∧
      ∀ b ∈ removed, ok b = true := by
  induction handles, joined, i using sweep.induct ok fin with
  | case1 handles joined i hi hf hok ih =>
    -- a finished check, awaited and removed
    rw [sweep, dif_pos hi, if_pos hf, if_pos hok] at hs
    obtain ⟨removed, rfl, hp, hr⟩ := ih hs
    refine ⟨_ :: removed, by simp,
      List.perm_middle.trans ((hp.cons _).trans (swapRemoveAt_perm handles i hi)), fun b hb => ?_⟩
    rcases List.mem_cons.1 hb with rfl | hb
    exacts [hok, hr b hb]
  | case2 handles joined i hi hf hok =>
    rw [sweep, dif_pos hi, if_pos hf, if_neg hok] at hs
    cases hs
  | case3 handles joined i hi hf ih =>
    rw [sweep, dif_pos hi, if_neg hf] at hs
    exact ih hs
  | case4 handles joined i hi =>
    rw [sweep, dif_neg hi] at hs
    obtain ⟨rfl, rfl⟩ := Prod.mk.inj (Option.some_injective _ hs)
    exact ⟨[], by simp, by simp, by simp⟩

/-- Making room awaits some checks, all of which succeeded, and leaves fewer than
`async_parallelism` running. -/
lemma makeRoom_spec (fin : ℕ → Bool) {handles joined handles' joined' : List ℕ}
    (hb : handles.length ≤ parallelism)
    (hs : makeRoom parallelism ok fin handles joined = some (handles', joined')) :
    handles'.length < parallelism ∧ ∃ removed, joined' = joined ++ removed ∧
      (handles' ++ removed).Perm handles ∧ ∀ b ∈ removed, ok b = true := by
  unfold makeRoom at hs
  split_ifs at hs with hfull
  · -- the pool is full: the first check, then the sweep
    unfold swapRemove at hs
    split_ifs at hs with h0
    simp only [Option.some_bind] at hs
    split_ifs at hs with hok
    obtain ⟨removed, rfl, hp, hr⟩ := sweep_spec ok fin _ _ 0 hs
    have hlen := swapRemoveAt_length handles 0 h0
    refine ⟨?_, (swapRemoveAt handles 0 h0).1 :: removed, by simp, ?_, ?_⟩
    · have := hp.length_eq
      simp only [List.length_append] at this
      omega
    · exact List.perm_middle.trans ((hp.cons _).trans (swapRemoveAt_perm handles 0 h0))
    · intro b hb
      rcases List.mem_cons.1 hb with rfl | hb
      exacts [hok, hr b hb]
  · obtain ⟨rfl, rfl⟩ := Prod.mk.inj (Option.some_injective _ hs)
    exact ⟨by omega, [], by simp, by simp, by simp⟩

/-! ### The invariant of the loop -/

/-- What holds of `main`'s variables between two passes, for the start block `start`. -/
structure Inv (start : ℕ) (s : State) : Prop where
  /-- `block_i` never goes below the start. -/
  start_le : start ≤ s.blockI
  /-- The running and the awaited checks are the blocks from `start` to `block_i`, each once. -/
  perm : (s.handles ++ s.joined).Perm (List.range' start (s.blockI - start))
  /-- At most `async_parallelism` checks run. -/
  bounded : s.handles.length ≤ parallelism
  /-- Every awaited check succeeded. -/
  joined_ok : ∀ b ∈ s.joined, ok b = true
  /-- The next node is the number of spawned checks, modulo the length of `rpcs`. -/
  rpcI_eq : s.rpcI = (s.blockI - start) % parallelism

lemma inv_initial (start : ℕ) : Inv parallelism ok start (initial start) :=
  ⟨le_refl _, by simp [initial], by simp [initial], by simp [initial], by simp [initial]⟩

/-- A new height leaves the invariant as it is. -/
lemma Inv.setHeight {start : ℕ} {s : State} (hi : Inv parallelism ok start s) (newHeight : ℕ) :
    Inv parallelism ok start { s with height := newHeight } :=
  ⟨hi.start_le, hi.perm, hi.bounded, hi.joined_ok, hi.rpcI_eq⟩

lemma inv_spawnStep {start : ℕ} {s s' : State} (hi : Inv parallelism ok start s)
    (h : spawnStep parallelism ok finished s = some s') : Inv parallelism ok start s' := by
  obtain ⟨handles, joined, hm, -, rfl⟩ := spawnStep_eq_some parallelism ok finished h
  obtain ⟨hlt, removed, rfl, hp, hrem⟩ := makeRoom_spec parallelism ok _ hi.bounded hm
  have hle := hi.start_le
  have hnext : s.blockI + 1 - start = s.blockI - start + 1 := by omega
  refine ⟨Nat.le_succ_of_le hle, ?_, by simpa using hlt, fun b hb => ?_, ?_⟩
  · -- the new check is block `block_i`, the next of the range
    rw [hnext, List.range'_concat, show start + 1 * (s.blockI - start) = s.blockI by omega]
    calc List.Perm (handles ++ [s.blockI] ++ (s.joined ++ removed))
          ((handles ++ removed) ++ s.joined ++ [s.blockI]) :=
          List.perm_iff_count.2 fun a => by simp only [List.count_append]; omega
      List.Perm _ (s.handles ++ s.joined ++ [s.blockI]) :=
          (hp.append_right _).append_right _
      List.Perm _ _ := hi.perm.append_right _
  · rcases List.mem_append.1 hb with hb | hb
    exacts [hi.joined_ok b hb, hrem b hb]
  · simp only
    rw [hi.rpcI_eq, Nat.mod_add_mod, hnext]

/-- A run of the inner loop keeps the invariant and ends with `block_i` at the height, or
above it if it was there already. -/
lemma inv_spawnLoop {start : ℕ} (s : State) {s' : State} (hi : Inv parallelism ok start s)
    (h : spawnLoop parallelism ok finished s = some s') :
    Inv parallelism ok start s' ∧ s'.height = s.height ∧ s'.blockI = max s.blockI s.height := by
  induction s using spawnLoop.induct parallelism ok finished with
  | case1 s hlt hs =>
    rw [spawnLoop, dif_pos hlt] at h
    split at h
    · cases h
    · rename_i hs₂
      simp [hs] at hs₂
  | case2 s hlt s₁ hs _ ih =>
    rw [spawnLoop, dif_pos hlt] at h
    split at h
    · cases h
    · rename_i s₂ hs₂
      obtain rfl : s₁ = s₂ := Option.some_injective _ (hs.symm.trans hs₂)
      obtain ⟨hi', hh, hb⟩ := ih (inv_spawnStep parallelism ok finished hi hs) h
      obtain ⟨_, _, -, -, rfl⟩ := spawnStep_eq_some parallelism ok finished hs
      exact ⟨hi', hh, by simp only at hh hb ⊢; omega⟩
  | case3 s hge =>
    rw [spawnLoop, dif_neg hge] at h
    cases h
    exact ⟨hi, rfl, by omega⟩

/-- The outer loop keeps the invariant, with `block_i` at or above the last height read. -/
lemma inv_run {start : ℕ} :
    ∀ (answers : List (Option ℕ)) (s : State) {s' : State}, Inv parallelism ok start s →
      s.height ≤ s.blockI →
      (run parallelism ok finished s answers = .exited s' ∨
        run parallelism ok finished s answers = .running s') →
      Inv parallelism ok start s' ∧ s'.height ≤ s'.blockI
  | [], s, _, hi, hh, h => by
    simp only [run, reduceCtorEq, Outcome.running.injEq, false_or] at h
    exact h ▸ ⟨hi, hh⟩
  | none :: _, s, _, hi, hh, h => by simp [run] at h
  | some newHeight :: rest, s, _, hi, hh, h => by
    rw [run] at h
    split_ifs at h with hnew
    · simp only [Outcome.exited.injEq, reduceCtorEq, or_false] at h
      exact h ▸ ⟨hi, hh⟩
    · split at h
      · simp at h
      · rename_i s₁ hs₁
        obtain ⟨hi', hh', hb'⟩ :=
          inv_spawnLoop parallelism ok finished _ (hi.setHeight parallelism ok newHeight) hs₁
        exact inv_run rest s₁ hi' (by simp only at hh' hb'; omega) h

/-- The running and the awaited checks are the blocks from the start to `block_i`. -/
lemma Inv.mem_iff {start : ℕ} {s : State} (hi : Inv parallelism ok start s) (b : ℕ) :
    b ∈ s.handles ++ s.joined ↔ start ≤ b ∧ b < s.blockI := by
  rw [hi.perm.mem_iff, List.mem_range'_1]
  have := hi.start_le
  omega

/-- Once `block_i` has reached the height, every block from the start below the height is
running or passed its check. -/
lemma Inv.covered {start : ℕ} {s : State} (hi : Inv parallelism ok start s)
    (hh : s.height ≤ s.blockI) (b : ℕ) (hs : start ≤ b) (hb : b < s.height) :
    b ∈ s.handles ∨ ok b = true := by
  rcases List.mem_append.1 ((hi.mem_iff parallelism ok b).2 ⟨hs, by omega⟩) with hb | hb
  exacts [.inl hb, .inr (hi.joined_ok b hb)]

/-- The states `main`'s loop can be in between two passes: the initial one, and those a pass
of the inner loop or a new height leads to. -/
inductive Reachable (start : ℕ) : State → Prop
  | initial : Reachable start (initial start)
  | spawn {s s' : State} : Reachable start s → spawnStep parallelism ok finished s = some s' →
      Reachable start s'
  | height {s : State} (newHeight : ℕ) : Reachable start s →
      Reachable start { s with height := newHeight }

/-- **Bounded parallelism, each block once.** In every state the loop reaches, at most
`async_parallelism` checks are running; the running and the awaited checks are the blocks
from the start to `block_i`, each once; and the next check goes to node
`rpcs[(block_i - start) % async_parallelism]`. -/
theorem reachable_bounded (start : ℕ) (s : State)
    (h : Reachable parallelism ok finished start s) :
    s.handles.length ≤ parallelism ∧
      (s.handles ++ s.joined).Perm (List.range' start (s.blockI - start)) ∧
      s.rpcI = (s.blockI - start) % parallelism := by
  have hi : Inv parallelism ok start s := by
    induction h with
    | initial => exact inv_initial parallelism ok start
    | spawn _ hs ih => exact inv_spawnStep parallelism ok finished ih hs
    | height newHeight _ ih => exact ih.setHeight parallelism ok newHeight
  exact ⟨hi.bounded, hi.perm, hi.rpcI_eq⟩

theorem reachable_bounded_one :
    Reachable 1 (fun _ => true) (fun _ _ => false) 0 ⟨1, 0, [0], 1, []⟩ ∧ [0].length ≤ 1 := by
  have h : Reachable 1 (fun _ => true) (fun _ _ => false) 0 ⟨1, 0, [0], 1, []⟩ :=
    .spawn (.height 1 .initial) (by simp [spawnStep, makeRoom, initial])
  exact ⟨h, (reachable_bounded 1 _ _ 0 _ h).1⟩

/-- **What a normal exit certifies.** When `main` returns, at most `async_parallelism` checks
are still running, all of blocks spawned from the start; and every block from the start up to
the last height read is one of them or passed its check. The running checks are never
awaited: a failure among them does not stop `main` from returning. -/
theorem run_exited (start : ℕ) (answers : List (Option ℕ)) (s : State)
    (h : run parallelism ok finished (initial start) answers = .exited s) :
    s.handles.length ≤ parallelism ∧ (∀ b ∈ s.handles, start ≤ b ∧ b < s.blockI) ∧
      ∀ b, start ≤ b → b < s.height → b ∈ s.handles ∨ ok b = true := by
  obtain ⟨hi, hh⟩ := inv_run parallelism ok finished answers _ (inv_initial parallelism ok start)
    (Nat.zero_le _) (.inl h)
  exact ⟨hi.bounded, fun b hb => (hi.mem_iff parallelism ok b).1 (List.mem_append_left _ hb),
    fun b hs hb => hi.covered parallelism ok hh b hs hb⟩

/-- With one check at a time, from block 0 on a chain of height 1, `main` returns although
the check of block 0 fails: that check is still running, and is never awaited. -/
theorem run_exited_one :
    run 1 (fun _ => false) (fun _ _ => false) (initial 0) [some 1, some 1] =
        .exited ⟨1, 0, [0], 1, []⟩ ∧
      (0 ∈ [0] ∨ false = true) := by
  have h : run 1 (fun _ => false) (fun _ _ => false) (initial 0) [some 1, some 1] =
      .exited ⟨1, 0, [0], 1, []⟩ := by
    simp [run, spawnLoop, spawnStep, makeRoom, initial]
  exact ⟨h, (run_exited 1 (fun _ => false) (fun _ _ => false) 0 [some 1, some 1] _ h).2.2 0 le_rfl
    Nat.one_pos⟩

/-! ### Where a panic comes from -/

lemma sweep_none (fin : ℕ → Bool) (handles joined : List ℕ) (i : ℕ)
    (hs : sweep ok fin handles joined i = none) : ∃ b ∈ handles, ok b = false := by
  induction handles, joined, i using sweep.induct ok fin with
  | case1 handles joined i hi hf hok ih =>
    rw [sweep, dif_pos hi, if_pos hf, if_pos hok] at hs
    obtain ⟨b, hb, hfail⟩ := ih hs
    exact ⟨b, (swapRemoveAt_perm handles i hi).subset (List.mem_cons_of_mem _ hb), hfail⟩
  | case2 handles joined i hi hf hok =>
    -- the awaited check failed: `unwrap` panics
    exact ⟨_, (swapRemoveAt_perm handles i hi).subset (List.mem_cons_self _ _),
      Bool.eq_false_iff.2 hok⟩
  | case3 handles joined i hi hf ih =>
    rw [sweep, dif_pos hi, if_neg hf] at hs
    exact ih hs
  | case4 handles joined i hi =>
    rw [sweep, dif_neg hi] at hs
    cases hs

lemma makeRoom_none (fin : ℕ → Bool) {handles joined : List ℕ}
    (hs : makeRoom parallelism ok fin handles joined = none) :
    (parallelism = 0 ∧ handles = []) ∨ ∃ b ∈ handles, ok b = false := by
  unfold makeRoom at hs
  split_ifs at hs with hfull
  unfold swapRemove at hs
  split_ifs at hs with h0
  · simp only [Option.some_bind] at hs
    have hperm := swapRemoveAt_perm handles 0 h0
    split_ifs at hs with hok
    · obtain ⟨b, hb, hfail⟩ := sweep_none ok fin _ _ 0 hs
      exact .inr ⟨b, hperm.subset (List.mem_cons_of_mem _ hb), hfail⟩
    · exact .inr ⟨_, hperm.subset (List.mem_cons_self _ _), Bool.eq_false_iff.2 hok⟩
  · -- `swap_remove(0)` on an empty pool, which counts as full only without parallelism
    exact .inl ⟨by omega, List.eq_nil_of_length_eq_zero (by omega)⟩

lemma spawnStep_none {start : ℕ} {s : State} (hi : Inv parallelism ok start s)
    (hs : spawnStep parallelism ok finished s = none) :
    parallelism = 0 ∨ ∃ b ∈ s.handles, ok b = false := by
  unfold spawnStep at hs
  split at hs
  · rename_i hm
    exact (makeRoom_none parallelism ok _ hm).imp_left And.left
  · split_ifs at hs with hr
    -- `rpcs[rpc_i]` is in bounds whenever there are connections
    refine .inl (Nat.eq_zero_of_not_pos fun hpos => hr ?_)
    rw [hi.rpcI_eq]
    exact Nat.mod_lt _ hpos

lemma spawnLoop_none {start : ℕ} (s : State) (hi : Inv parallelism ok start s)
    (h : spawnLoop parallelism ok finished s = none) :
    parallelism = 0 ∨ ∃ b, start ≤ b ∧ ok b = false := by
  induction s using spawnLoop.induct parallelism ok finished with
  | case1 s hlt hs =>
    refine (spawnStep_none parallelism ok finished hi hs).imp_right ?_
    rintro ⟨b, hb, hfail⟩
    exact ⟨b, ((hi.mem_iff parallelism ok b).1 (List.mem_append_left _ hb)).1, hfail⟩
  | case2 s hlt s₁ hs _ ih =>
    rw [spawnLoop_of_lt parallelism ok finished hlt hs] at h
    exact ih (inv_spawnStep parallelism ok finished hi hs) h
  | case3 s hge =>
    rw [spawnLoop_of_le parallelism ok finished (by omega)] at h
    cases h

/-- **Only a failed call makes `main` panic.** Whatever the answers of `get_height` and
whichever checks the sweeps see finished, `main`'s loop panics only when `async_parallelism`
is zero, when a check of a block from the start on, which it awaited, failed, or when a call
of `get_height` failed. -/
theorem run_panicked (start : ℕ) (answers : List (Option ℕ))
    (h : run parallelism ok finished (initial start) answers = .panicked) :
    parallelism = 0 ∨ (∃ b, start ≤ b ∧ ok b = false) ∨ none ∈ answers := by
  suffices ∀ (answers : List (Option ℕ)) (s : State), Inv parallelism ok start s →
      run parallelism ok finished s answers = .panicked →
      parallelism = 0 ∨ (∃ b, start ≤ b ∧ ok b = false) ∨ none ∈ answers from
    this answers _ (inv_initial parallelism ok start) h
  intro answers
  induction answers with
  | nil => intro s _ h; cases h
  | cons answer rest ih =>
    intro s hi h
    cases answer with
    | none => exact .inr (.inr (List.mem_cons_self _ _))
    | some newHeight =>
      rw [run] at h
      split_ifs at h
      split at h
      · rename_i hs
        exact (spawnLoop_none parallelism ok finished _
          (hi.setHeight parallelism ok newHeight) hs).imp_right .inl
      · rename_i s₁ hs
        exact (ih s₁ (inv_spawnLoop parallelism ok finished _
          (hi.setHeight parallelism ok newHeight) hs).1 h).imp_right
          (Or.imp_right (List.mem_cons_of_mem _))

theorem run_panicked_one :
    run 1 (fun b => b ≠ 0) (fun _ _ => false) (initial 0) [some 2] = .panicked ∧
      (1 = 0 ∨ (∃ b, 0 ≤ b ∧ decide (b ≠ 0) = false) ∨ none ∈ [some 2]) := by
  refine ⟨?h, run_panicked 1 (fun b => b ≠ 0) (fun _ _ => false) 0 [some 2] ?h⟩
  simp [run, spawnLoop, spawnStep, makeRoom, swapRemove, swapRemoveAt, initial]

/-! ### Without parallelism -/

/-- Without parallelism no check is spawned: `rpcs` is empty. -/
lemma spawnStep_zero (s : State) : spawnStep 0 ok finished s = none := by
  unfold spawnStep
  split
  · rfl
  · exact if_neg (Nat.not_lt_zero _)

lemma spawnLoop_zero (s : State) (hlt : s.blockI < s.height) :
    spawnLoop 0 ok finished s = none := by
  rw [spawnLoop, dif_pos hlt]
  split
  · rfl
  · rename_i h
    rw [spawnStep_zero] at h
    cases h

/-- Without parallelism, a run that is still going has not moved `block_i`, and the last
height it read is at most `block_i`. -/
lemma run_zero_running :
    ∀ (answers : List (Option ℕ)) (s : State) {s' : State}, s.height ≤ s.blockI →
      run 0 ok finished s answers = .running s' → s'.blockI = s.blockI ∧ s'.height ≤ s.blockI
  | [], _, _, hh, h => by cases h; exact ⟨rfl, hh⟩
  | none :: _, _, _, _, h => by cases h
  | some newHeight :: rest, s, _, _, h => by
    rw [run] at h
    split_ifs at h
    by_cases hlt : s.blockI < newHeight
    · rw [spawnLoop_zero ok finished { s with height := newHeight } hlt] at h
      cases h
    · rw [@spawnLoop_of_le 0 ok finished { s with height := newHeight } (Nat.le_of_not_lt hlt)] at h
      exact run_zero_running rest { s with height := newHeight } (Nat.le_of_not_lt hlt) h

/-- **No parallelism is a panic.** With `async_parallelism` zero, `main` panics at the first
height `get_height` returns above the start block, whatever it answered before while it was
still running: the pool counts as full, and `swap_remove(0)` finds it empty. -/
theorem run_parallelism_zero (start : ℕ) (pre post : List (Option ℕ)) (s : State)
    (newHeight : ℕ) (hpre : run 0 ok finished (initial start) pre = .running s)
    (hlt : start < newHeight) :
    run 0 ok finished (initial start) (pre ++ some newHeight :: post) = .panicked := by
  obtain ⟨hb, hh⟩ := run_zero_running ok finished pre _ (Nat.zero_le _) hpre
  simp only [initial] at hb hh
  rw [run_append, hpre]
  show run 0 ok finished s (some newHeight :: post) = .panicked
  rw [run, if_neg (by omega), spawnLoop_zero ok finished { s with height := newHeight } (by
    show s.blockI < newHeight; omega)]

/-- From block 10, a first height of 5 spawns nothing, and the next height, 20, panics. -/
theorem run_parallelism_zero_ten :
    run 0 (fun _ => true) (fun _ _ => true) (initial 10) [some 5] =
        .running ⟨10, 0, [], 5, []⟩ ∧ 10 < 20 ∧
      run 0 (fun _ => true) (fun _ _ => true) (initial 10) ([some 5] ++ [some 20]) = .panicked := by
  refine ⟨?hpre, ?hlt, run_parallelism_zero _ _ 10 [some 5] [] _ 20 ?hpre ?hlt⟩
  · rw [run, if_neg (by decide), spawnLoop_of_le _ _ _ (by decide)]
    rfl
  · decide

end Loop

end Serai.Monero.ReserializeChain
