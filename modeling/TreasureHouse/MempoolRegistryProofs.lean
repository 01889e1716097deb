import TreasureHouse.ListQueueProofs
import TreasureHouse.MempoolFrameProofs
import TreasureHouse.MempoolOrderProofs

/-! # `memory/mempool.c` — the pools of a program and `mempool_list`

    Every pool that `mempool_create` returned is on `mempool_list` until it is
    destroyed; before it makes a pool, `mempool_create` goes through the list to
    see that no pool has the name.  The list is one of `container/list.h`, and a
    pool is known by the address of its structure.

      • `registry_right`: after any run of calls on any number of pools that
        frees only live objects, their names differ, a search by name finds the
        pool of that name, and a creation goes as `Mempool.mempoolCreate` says
        for the names in use. -/

namespace MempoolRegistry

open LabelledRun Mempool ListHead WaitQueue

/-- A `struct list_head`: `mempool_list`, or the `list` of a pool. -/
inductive PoolNode where
  | mempoolList
  | pool (p : Nat)
  | poison1
  | poison2
  deriving DecidableEq

instance : ListPoison PoolNode where
  listPoison1 := .poison1
  listPoison2 := .poison2

/-- The links, and the pool structures that are allocated, each with the objects
    its clients hold. -/
structure Registry where
  links : Links PoolNode
  pools : List (Nat × PoolState)

/-- The pool at an address. -/
def poolAt (pools : List (Nat × PoolState)) (p : Nat) : Option PoolState :=
  (pools.find? fun c => decide (c.1 = p)).map Prod.snd

/-- The pool at an address changes. -/
def setPool (pools : List (Nat × PoolState)) (p : Nat) (st : PoolState) : List (Nat × PoolState) :=
  pools.map fun c => if c.1 = p then (p, st) else c

/-- The pool at an address is freed. -/
def dropPool (pools : List (Nat × PoolState)) (p : Nat) : List (Nat × PoolState) :=
  pools.filter fun c => decide (c.1 ≠ p)

-- ── The functions ────────────────────────────────────────────────────────────

/-- The loop of `find_mempool_by_name` from `pos` on, within some rounds. -/
def findLoop (r : Registry) (name : String) : Nat → PoolNode → Option (Option Nat)
  | 0, _ => none
  | _ + 1, .mempoolList => some none
  | k + 1, .pool p => do
      let st ← poolAt r.pools p
      if st.pool.name = name then some (some p)
      else findLoop r name k (r.links.next (.pool p))
  | _ + 1, _ => none

/-- `find_mempool_by_name`, which can meet every pool once. -/
def findMempoolByName (r : Registry) (name : String) : Option (Option Nat) :=
  findLoop r name (r.pools.length + 1) (r.links.next .mempoolList)

/-- The registry with one more pool. -/
def withPool (r : Registry) (p : Nat) (pool : Pool) : Registry where
  links := listAdd r.links (.pool p) .mempoolList
  pools := (p, { pool := pool, live := [] }) :: r.pools

/-- `mempool_create` from `calloc` on, which returned `p`; what it does with the
    sizes is in `Mempool`. -/
def makePool (r : Registry) (name : String) (objSize align : Nat) (ops : Option MempoolOps)
    (p : Nat) : Option (Option Nat × Registry) :=
  (mempoolCreate [] (some name) objSize align ops true).map fun made =>
    made.elim (none, r) fun pool => (some p, withPool r p pool)

/-- What `mempool_create` checks; `make` is the rest of it. -/
def createWith (r : Registry) (name : Option String) (calloc : Option Nat)
    (make : String → Nat → Option (Option Nat × Registry)) : Option (Option Nat × Registry) :=
  match name with
  | none => some (none, r)
  | some name => do
      match ← findMempoolByName r name with
      | some _ => some (none, r)
      | none =>
          match calloc with
          | none => some (none, r)
          | some p => make name p

/-- `mempool_create`: the address returned (NULL as `none`) and the registry. -/
def createPool (r : Registry) (name : Option String) (objSize align : Nat)
    (ops : Option MempoolOps) (calloc : Option Nat) : Option (Option Nat × Registry) :=
  createWith r name calloc fun name p => makePool r name objSize align ops p

/-- `mempool_destory`. -/
def destoryPool (r : Registry) (p : Nat) : Option Registry := do
  let st ← poolAt r.pools p
  let _ ← mempoolDestory st.pool
  some { links := ListHead.listDel r.links (.pool p), pools := dropPool r.pools p }

-- ── Runs ─────────────────────────────────────────────────────────────────────

/-- A block of `size` bytes at `base` meets no block of the pool. -/
def apartFrom (base size : Nat) (pool : Pool) : Bool :=
  pool.slabs.held.all fun a =>
    match pool.mem a with
    | none => true
    | some slab =>
        decide (base + size ≤ slab.sBase) || decide (slab.sBase + pool.slabSize ≤ base)

/-- What is assumed of `malloc` besides `mallocOk`: the new block meets no block
    of another pool. -/
def otherPoolsOk (r : Registry) (p : Nat) (pool : Pool) : Op → Bool
  | .alloc _ (some base) =>
      r.pools.all fun c => decide (c.1 = p) || apartFrom base pool.slabSize c.2.pool
  | _ => true

/-- The calls of a program, with what the C library would return. -/
inductive Call where
  | create (name : Option String) (objSize align : Nat) (ops : Option MempoolOps)
      (calloc : Option Nat)
  | call (p : Nat) (op : Op)
  | destory (p : Nat)

/-- One call.  `calloc` and `malloc` return nothing that a pool holds, and only live
    objects are freed. -/
def regStep (r : Registry) : Call → Option Registry
  | .create name objSize align ops calloc =>
      if calloc.all fun p => (poolAt r.pools p).isNone then
        (createPool r name objSize align ops calloc).map Prod.snd
      else none
  | .call p op => do
      let st ← poolAt r.pools p
      if otherPoolsOk r p st.pool op then
        let st ← opStep st op
        some { r with pools := setPool r.pools p st }
      else none
  | .destory p => destoryPool r p

/-- `static LIST_HEAD(mempool_list)`; other nodes hold anything. -/
def Started (r : Registry) : Prop :=
  ∃ links, r = { links := initListHead links .mempoolList, pools := [] }

-- ── The invariant ────────────────────────────────────────────────────────────

/-- The pools, in the order of `mempool_list`. -/
def nodes (pools : List (Nat × PoolState)) : List PoolNode := pools.map fun c => .pool c.1

/-- The names in use. -/
def names (pools : List (Nat × PoolState)) : List String := pools.map fun c => c.2.pool.name

/-- `mempool_list` holds the pools, and their names differ. -/
structure RegInv (r : Registry) : Prop where
  held : Holds r.links [(.mempoolList, nodes r.pools)]
  names : (names r.pools).Nodup

section Pools

variable {r : Registry} {pools : List (Nat × PoolState)} {p q : Nat} {st st' : PoolState}

theorem RegInv.keys (h : RegInv r) : (r.pools.map Prod.fst).Nodup := by
  have hnd : (r.pools.map (PoolNode.pool ∘ Prod.fst)).Nodup := h.held.head_not_mem.2
  rw [← List.map_map] at hnd
  exact hnd.of_map

theorem poolAt_iff (hk : (pools.map Prod.fst).Nodup) :
    poolAt pools p = some st ↔ (p, st) ∈ pools := by
  rw [poolAt, Option.map_eq_some_iff]
  constructor
  · rintro ⟨c, hc, rfl⟩
    have htest := List.find?_some hc
    rw [← of_decide_eq_true htest]
    exact List.mem_of_find?_eq_some hc
  · intro hmem
    cases hc : pools.find? fun c => decide (c.1 = p) with
    | none =>
        exact absurd (decide_eq_true rfl) (List.find?_eq_none.mp hc (p, st) hmem)
    | some c =>
        have htest := List.find?_some hc
        have hcp : c.1 = p := of_decide_eq_true htest
        have heq := List.inj_on_of_nodup_map hk (List.mem_of_find?_eq_some hc) hmem hcp
        exact ⟨c, rfl, by rw [heq]⟩

theorem poolAt_none : poolAt pools p = none ↔ p ∉ pools.map Prod.fst := by
  rw [poolAt, Option.map_eq_none_iff, List.find?_eq_none, List.mem_map]
  constructor
  · rintro h ⟨c, hc, rfl⟩
    exact h c hc (decide_eq_true rfl)
  · intro h c hc htest
    exact h ⟨c, hc, of_decide_eq_true htest⟩

theorem nodes_setPool : nodes (setPool pools p st) = nodes pools := by
  rw [nodes, nodes, setPool, List.map_map]
  refine List.map_congr_left ?_
  intro c _
  by_cases hc : c.1 = p
  · simp [hc]
  · simp [hc]

/-- A pool that changes keeps its name. -/
theorem names_setPool (hk : (pools.map Prod.fst).Nodup) (hp : (p, st) ∈ pools)
    (hname : st'.pool.name = st.pool.name) : names (setPool pools p st') = names pools := by
  rw [names, names, setPool, List.map_map]
  refine List.map_congr_left ?_
  intro c hc
  by_cases hcp : c.1 = p
  · have heq : c = (p, st) := List.inj_on_of_nodup_map hk hc hp hcp
    simp [heq, hname]
  · simp [hcp]

theorem nodes_dropPool (hk : (nodes pools).Nodup) :
    nodes (dropPool pools p) = (nodes pools).erase (.pool p) := by
  rw [hk.erase_eq_filter, nodes, nodes, dropPool, List.filter_map]
  congr 1
  refine List.filter_congr ?_
  intro c _
  by_cases hc : c.1 = p
  · simp [hc]
  · simp [hc]

-- ── `find_mempool_by_name` ───────────────────────────────────────────────────

/-- The loop finds the first pool of the name among those that it has not met. -/
theorem findLoop_eq (h : RegInv r) (name : String) :
    ∀ (rest met : List (Nat × PoolState)) (pos : PoolNode), r.pools = met ++ rest →
      (nodes rest ++ [PoolNode.mempoolList]).head? = some pos →
      findLoop r name (rest.length + 1) pos
        = some ((rest.find? fun c => decide (c.2.pool.name = name)).map Prod.fst) := by
  intro rest
  induction rest with
  | nil =>
      intro met pos _ hpos
      cases hpos
      rfl
  | cons c rest ih =>
      intro met pos hpools hpos
      have hpc : PoolNode.pool c.1 = pos := Option.some.inj hpos
      subst hpc
      have hat : poolAt r.pools c.1 = some c.2 := by
        refine (poolAt_iff h.keys).mpr ?_
        rw [hpools]
        exact List.mem_append_right met List.mem_cons_self
      have hheld := h.held
      rw [hpools, nodes, List.map_append, List.map_cons] at hheld
      have hnext := hheld.next_entry
      rw [List.length_cons, findLoop, hat, Option.bind_eq_bind, Option.bind_some]
      by_cases hname : c.2.pool.name = name
      · rw [if_pos hname, List.find?_cons_of_pos (by exact decide_eq_true hname)]
        rfl
      · rw [if_neg hname, List.find?_cons_of_neg (by simp [hname])]
        exact ih (met ++ [c]) _ (by rw [hpools, List.append_assoc]; rfl) hnext

/-- **FIND**: the search ends, at the pool of that name if there is one. -/
theorem findMempoolByName_eq (h : RegInv r) (name : String) :
    findMempoolByName r name
      = some ((r.pools.find? fun c => decide (c.2.pool.name = name)).map Prod.fst) := by
  refine findLoop_eq h name r.pools [] _ rfl ?_
  exact h.held.next_head

theorem find_none_iff {name : String} :
    (pools.find? fun c => decide (c.2.pool.name = name)) = none ↔ name ∉ names pools := by
  rw [List.find?_eq_none, names, List.mem_map]
  constructor
  · rintro h ⟨c, hc, rfl⟩
    exact h c hc (decide_eq_true rfl)
  · intro h c hc htest
    exact h ⟨c, hc, of_decide_eq_true htest⟩

end Pools

-- ── `mempool_create` ─────────────────────────────────────────────────────────

section Create

variable {r r' : Registry} {name : Option String} {objSize align : Nat} {ops : Option MempoolOps}
  {calloc : Option Nat}

/-- A free name is as good as any. -/
theorem mempoolCreate_of_free {pools : List (Nat × PoolState)} {n : String}
    (hn : n ∉ names pools) :
    mempoolCreate (names pools) (some n) objSize align ops true
      = mempoolCreate [] (some n) objSize align ops true :=
  (MempoolOrder.mempoolCreate_eq ops hn).trans
    (MempoolOrder.mempoolCreate_eq ops List.not_mem_nil).symm

theorem mempoolCreate_taken {mempoolList : List String} {n : String} (hn : n ∈ mempoolList)
    (calloc : Bool) :
    mempoolCreate mempoolList (some n) objSize align ops calloc = some none := by
  rw [mempoolCreate, if_pos hn]

theorem mempoolCreate_oom {mempoolList : List String} {n : String} (hn : n ∉ mempoolList) :
    mempoolCreate mempoolList (some n) objSize align ops false = some none := by
  rw [mempoolCreate, if_neg hn, if_pos Bool.false_ne_true]

section Checks

variable {make : String → Nat → Option (Option Nat × Registry)} {n : String}

theorem createWith_taken {q : Nat} (hfind : findMempoolByName r n = some (some q)) :
    createWith r (some n) calloc make = some (none, r) := by
  simp only [createWith, hfind, Option.bind_eq_bind, Option.bind_some]

theorem createWith_oom (hfind : findMempoolByName r n = some none) :
    createWith r (some n) none make = some (none, r) := by
  rw [createWith, hfind]
  rfl

theorem createWith_free {p : Nat} (hfind : findMempoolByName r n = some none) :
    createWith r (some n) (some p) make = make n p := by
  rw [createWith, hfind]
  rfl

/-- The two ways to write what a creation leaves. -/
theorem map_withPool (made : Option (Option Pool)) (r : Registry) (p : Nat) :
    (made.map fun made => made.elim (none, r) fun pool => (some p, withPool r p pool))
      = made.map fun made => made.elim (none, r) fun pool =>
          (some p, (some p).elim r fun p => withPool r p pool) :=
  rfl

end Checks

/-- **CREATE**: the names in use decide, whatever else the list holds. -/
theorem createPool_eq (h : RegInv r) :
    createPool r name objSize align ops calloc
      = (mempoolCreate (names r.pools) name objSize align ops calloc.isSome).map fun made =>
          made.elim (none, r) fun pool => (calloc, calloc.elim r fun p => withPool r p pool) := by
  rw [createPool]
  cases name with
  | none =>
      rw [mempoolCreate, Option.map_some, Option.elim_none]
      rfl
  | some n =>
      have hfind := findMempoolByName_eq h n
      by_cases hn : n ∈ names r.pools
      · rw [mempoolCreate_taken hn, Option.map_some, Option.elim_none]
        cases hc : r.pools.find? fun c => decide (c.2.pool.name = n) with
        | none => exact absurd hn (find_none_iff.mp hc)
        | some c =>
            rw [hc, Option.map_some] at hfind
            exact createWith_taken hfind
      · rw [find_none_iff.mpr hn, Option.map_none] at hfind
        cases calloc with
        | none =>
            rw [Option.isSome_none, mempoolCreate_oom hn, Option.map_some, Option.elim_none]
            exact createWith_oom hfind
        | some p =>
            rw [createWith_free hfind, Option.isSome_some, mempoolCreate_of_free hn, makePool]
            exact map_withPool _ r p

/-- What a creation that has a result did. -/
theorem createPool_cases (h : RegInv r) {res : Option Nat}
    (hc : createPool r name objSize align ops calloc = some (res, r')) :
    (res = none ∧ r' = r) ∨ ∃ n p pool, name = some n ∧ calloc = some p ∧ n ∉ names r.pools
      ∧ mempoolCreate (names r.pools) (some n) objSize align ops true = some (some pool)
      ∧ res = some p ∧ r' = withPool r p pool := by
  rw [createPool_eq h] at hc
  obtain ⟨made, hmade, heq⟩ := Option.map_eq_some_iff.mp hc
  cases made with
  | none =>
      cases heq
      exact Or.inl ⟨rfl, rfl⟩
  | some pool =>
      cases name with
      | none =>
          rw [mempoolCreate] at hmade
          cases hmade
      | some n =>
          by_cases hn : n ∈ names r.pools
          · rw [mempoolCreate_taken hn] at hmade
            cases hmade
          · cases calloc with
            | none =>
                rw [Option.isSome_none, mempoolCreate_oom hn] at hmade
                cases hmade
            | some p =>
                cases heq
                exact Or.inr ⟨n, p, pool, rfl, rfl, hn, hmade, rfl, rfl⟩

theorem mempoolCreate_name {mempoolList : List String} {n : String} {pool : Pool}
    (hn : n ∉ mempoolList)
    (h : mempoolCreate mempoolList (some n) objSize align ops true = some (some pool)) :
    pool.name = n := by
  rw [MempoolOrder.mempoolCreate_eq ops hn] at h
  obtain ⟨r, -, hr⟩ := Option.map_eq_some_iff.mp h
  split at hr
  · cases hr
  · cases hr
    rfl

end Create

-- ── What one call does ───────────────────────────────────────────────────────

section Steps

variable {r r' : Registry} {call : Call} {p : Nat} {st st' : PoolState} {pool : Pool}

/-- The four outcomes of a call. -/
theorem regStep_cases (h : RegInv r) (hs : regStep r call = some r') :
    r' = r
      ∨ (∃ n objSize align ops p pool, call = .create (some n) objSize align ops (some p)
          ∧ n ∉ names r.pools ∧ p ∉ r.pools.map Prod.fst
          ∧ mempoolCreate (names r.pools) (some n) objSize align ops true = some (some pool)
          ∧ r' = withPool r p pool)
      ∨ (∃ p op st st', call = .call p op ∧ (p, st) ∈ r.pools
          ∧ otherPoolsOk r p st.pool op = true ∧ opStep st op = some st'
          ∧ r' = { r with pools := setPool r.pools p st' })
      ∨ ∃ p st, call = .destory p ∧ (p, st) ∈ r.pools ∧ r' =
          { links := ListHead.listDel r.links (.pool p), pools := dropPool r.pools p } := by
  cases call with
  | create name objSize align ops calloc =>
      rw [regStep, Option.ite_none_right_eq_some, Option.map_eq_some_iff] at hs
      obtain ⟨hfresh, ⟨res, r''⟩, hc, rfl⟩ := hs
      obtain ⟨-, rfl⟩ | ⟨n, p, pool, rfl, rfl, hn, hmade, -, rfl⟩ := createPool_cases h hc
      · exact Or.inl rfl
      · have hp : p ∉ r.pools.map Prod.fst := poolAt_none.mp (Option.isNone_iff_eq_none.mp hfresh)
        exact Or.inr (Or.inl ⟨n, objSize, align, ops, p, pool, rfl, hn, hp, hmade, rfl⟩)
  | call p op =>
      obtain ⟨st, hst, hs⟩ := Option.bind_eq_some_iff.mp hs
      rw [Option.ite_none_right_eq_some] at hs
      obtain ⟨hok, hs⟩ := hs
      obtain ⟨st', hst', hs⟩ := Option.bind_eq_some_iff.mp hs
      cases hs
      exact Or.inr (Or.inr (Or.inl
        ⟨p, op, st, st', rfl, (poolAt_iff h.keys).mp hst, hok, hst', rfl⟩))
  | destory p =>
      obtain ⟨st, hst, hs⟩ := Option.bind_eq_some_iff.mp hs
      obtain ⟨pool', -, hs⟩ := Option.bind_eq_some_iff.mp hs
      cases hs
      exact Or.inr (Or.inr (Or.inr ⟨p, st, rfl, (poolAt_iff h.keys).mp hst, rfl⟩))

theorem withPool_inv (h : RegInv r) (hp : p ∉ r.pools.map Prod.fst)
    (hname : pool.name ∉ names r.pools) : RegInv (withPool r p pool) where
  held := by
    refine h.held.push (off_cons.mpr ⟨?_, List.not_mem_nil⟩)
    rw [List.mem_cons, not_or]
    refine ⟨(fun heq => nomatch heq), ?_⟩
    intro hmem
    obtain ⟨c, hc, heq⟩ := List.mem_map.mp hmem
    exact hp (List.mem_map.mpr ⟨c, hc, PoolNode.pool.inj heq⟩)
  names := List.nodup_cons.mpr ⟨hname, h.names⟩

theorem setPool_inv (h : RegInv r) (hp : (p, st) ∈ r.pools)
    (hname : st'.pool.name = st.pool.name) :
    RegInv { r with pools := setPool r.pools p st' } where
  held := by
    show Holds r.links [(.mempoolList, nodes (setPool r.pools p st'))]
    rw [nodes_setPool]
    exact h.held
  names := by
    show (names (setPool r.pools p st')).Nodup
    rw [names_setPool h.keys hp hname]
    exact h.names

theorem dropPool_inv (h : RegInv r) (hp : (p, st) ∈ r.pools) :
    RegInv { links := ListHead.listDel r.links (.pool p), pools := dropPool r.pools p } where
  held := by
    show Holds _ [(.mempoolList, nodes (dropPool r.pools p))]
    rw [nodes_dropPool h.held.head_not_mem.2]
    exact h.held.del (List.mem_map.mpr ⟨_, hp, rfl⟩)
  names := h.names.sublist (List.filter_sublist.map _)

/-- **STEP LEMMA**: every call keeps the invariant. -/
theorem regStep_inv (h : RegInv r) (hs : regStep r call = some r') : RegInv r' := by
  obtain rfl | ⟨n, objSize, align, ops, p, pool, -, hn, hp, hmade, rfl⟩
    | ⟨p, op, st, st', -, hp, -, hst, rfl⟩ | ⟨p, st, -, hp, rfl⟩ := regStep_cases h hs
  · exact h
  · refine withPool_inv h hp ?_
    rw [mempoolCreate_name hn hmade]
    exact hn
  · exact setPool_inv h hp (MempoolFrame.opStep_tame hst).name
  · exact dropPool_inv h hp

theorem Run.inv : ∀ r : Registry, Reach Started (fires regStep) r → RegInv r := by
  refine Reach.invariant ?_ ?_
  · rintro r ⟨links, rfl⟩
    exact {
      held := Holds.init (F := []) {
        nodup := List.nodup_nil
        path := fun _ h => nomatch h
        cycle := fun _ h => nomatch h } List.not_mem_nil
      names := List.nodup_nil }
  · intro r call r' _ h hs
    exact regStep_inv h hs

end Steps

-- ── The registry is right ────────────────────────────────────────────────────

/-- What a program can rely on. -/
structure Right (r : Registry) : Prop where
  shown : Shown r.links .mempoolList (nodes r.pools)
  names : (names r.pools).Nodup
  find : ∀ name, ∃ found, findMempoolByName r name = some found
    ∧ ∀ p, found = some p ↔ ∃ st, poolAt r.pools p = some st ∧ st.pool.name = name
  create : ∀ name objSize align ops calloc,
    createPool r name objSize align ops calloc
      = (mempoolCreate (MempoolRegistry.names r.pools) name objSize align ops calloc.isSome).map
          fun made =>
            made.elim (none, r) fun pool => (calloc, calloc.elim r fun p => withPool r p pool)

/-- A name finds its pool. -/
theorem RegInv.find_iff {r : Registry} (h : RegInv r) {name : String} {p : Nat} :
    (r.pools.find? fun c => decide (c.2.pool.name = name)).map Prod.fst = some p
      ↔ ∃ st, poolAt r.pools p = some st ∧ st.pool.name = name := by
  rw [Option.map_eq_some_iff]
  constructor
  · rintro ⟨c, hc, rfl⟩
    have htest := List.find?_some hc
    exact ⟨c.2, (poolAt_iff h.keys).mpr (List.mem_of_find?_eq_some hc), of_decide_eq_true htest⟩
  · rintro ⟨st, hst, hname⟩
    have hmem := (poolAt_iff h.keys).mp hst
    cases hc : r.pools.find? fun c => decide (c.2.pool.name = name) with
    | none => exact absurd (decide_eq_true hname) (List.find?_eq_none.mp hc (p, st) hmem)
    | some c =>
        have htest := List.find?_some hc
        have hcn : c.2.pool.name = st.pool.name := (of_decide_eq_true htest).trans hname.symm
        have heq := List.inj_on_of_nodup_map h.names (List.mem_of_find?_eq_some hc) hmem hcn
        exact ⟨c, rfl, by rw [heq]⟩

/-- **REGISTRY**: after any run of calls `mempool_list` holds the pools, no two
    of one name, a search ends at the pool of the name, and a creation goes by
    the names in use. -/
theorem registry_right {r : Registry} (hr : Reach Started (fires regStep) r) : Right r where
  shown := (Run.inv r hr).held.shown
  names := (Run.inv r hr).names
  find := fun name =>
    ⟨_, findMempoolByName_eq (Run.inv r hr) name, fun _ => (Run.inv r hr).find_iff⟩
  create := fun _ _ _ _ _ => createPool_eq (Run.inv r hr)

/-- Two pools; a third creation meets a name in use, and the name is free again
    after a destruction. -/
theorem registry_right_run :
    ∃ r : Registry, Right r ∧ names r.pools = ["tasks", "nodes"] := by
  have hstart : Reach Started (fires regStep)
      { links := initListHead { next := id, prev := id } .mempoolList, pools := [] } :=
    Reach.start ⟨_, rfl⟩
  obtain ⟨r, hr, htest⟩ := Reach.exists_of_runList
    [.create (some "tasks") 504 8 none (some 1), .create (some "nodes") 64 8 none (some 2),
      .create (some "tasks") 64 8 none (some 3), .call 2 (.alloc (some 9) (some 4096)),
      .destory 1, .create (some "tasks") 64 8 none (some 1)]
    (fun r => decide (names r.pools = ["tasks", "nodes"])) hstart (by decide +kernel)
  exact ⟨r, registry_right hr, of_decide_eq_true htest⟩

end MempoolRegistry
