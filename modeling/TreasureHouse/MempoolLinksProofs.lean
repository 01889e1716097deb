import TreasureHouse.ListQueueProofs
import TreasureHouse.MempoolDestoryProofs

/-! # `memory/mempool.c` — the slab lists in memory

    `Mempool` keeps the slabs of a pool as lists of addresses.  Here they are
    what they are in the source, three `struct list_head`s in `slabs_info` and
    one in every slab, and the functions of `mempool.c` go through
    `container/list.h`: `MOVE_LIST` is `list_del` and `list_add`, the searches
    follow the links, and `free_all_slabs` frees the slab that it stands on.

    Every function has the same answer either way and leaves the same pool
    (`mempoolAlloc_rel`, `mempoolFree_rel`, `mempoolDestory_rel`), or none has an
    answer. -/

namespace MempoolMem

open LabelledRun MachineInt Mempool MempoolList WaitQueue
open ListHead (ListPoison Heads Holds Off)

/-- A `struct list_head`: one of `slabs_info`, or the `list` of a slab. -/
inductive SlabNode where
  | partialHead
  | fullHead
  | emptyHead
  | slab (a : Nat)
  | poison1
  | poison2
  deriving DecidableEq

instance : ListPoison SlabNode where
  listPoison1 := .poison1
  listPoison2 := .poison2

/-- A pool: the links, and everything else.  The lists of `pool` stay empty. -/
structure MemPool where
  links : Links SlabNode
  pool : Pool

/-- The head of a list. -/
def headOf : SlabList → SlabNode
  | .partialList => .partialHead
  | .fullList => .fullHead
  | .emptyList => .emptyHead

-- ── Lists ────────────────────────────────────────────────────────────────────

/-- `MOVE_LIST`. -/
def moveList (links : Links SlabNode) (a : Nat) (dest : SlabList) : Links SlabNode :=
  WaitQueue.listAdd (ListHead.listDel links (.slab a)) (.slab a) (headOf dest)

/-- `list_for_each_entry` from `pos` on, up to the first slab that passes a test,
    within some rounds. -/
def firstEntry (m : MemPool) (test : Slab → Bool) (head : SlabNode) :
    Nat → SlabNode → Option (Option Nat)
  | 0, _ => none
  | k + 1, pos =>
      if pos = head then some none
      else
        match pos with
        | .slab a => do
            let slab ← m.pool.mem a
            if test slab then some (some a)
            else firstEntry m test head k (m.links.next (.slab a))
        | _ => none

/-- The loop over one list; `slab_nums` slabs are all that it can meet. -/
def findEntry (m : MemPool) (test : Slab → Bool) (l : SlabList) : Option (Option Nat) :=
  firstEntry m test (headOf l) (m.pool.slabs.slabNums + 1) (m.links.next (headOf l))

-- ── Allocation ───────────────────────────────────────────────────────────────

/-- `slab_alloc`: NULL when one of the two allocations fails. -/
def slabAlloc (m : MemPool) (calloc malloc : Option Nat) : Option (Nat × MemPool) :=
  match calloc, malloc with
  | some a, some base =>
      some (a,
        { links := WaitQueue.listAdd m.links (.slab a) .emptyHead
          pool := { m.pool with
            mem := Function.update m.pool.mem a (some (newSlab m.pool base))
            slabs := { m.pool.slabs with
              slabNums := add64 m.pool.slabs.slabNums 1
              freeObjs := add64 m.pool.slabs.freeObjs m.pool.numPerSlab
              totalObjs := add64 m.pool.slabs.totalObjs m.pool.numPerSlab
              cur := some a } } })
  | _, _ => none

/-- `slabs->cur = slab`. -/
def setCur (m : MemPool) (a : Nat) : MemPool :=
  { m with pool := { m.pool with slabs := { m.pool.slabs with cur := some a } } }

/-- `load_slab`: the slab found and the new `cur`. -/
def loadSlab (m : MemPool) : Option (Option Nat × MemPool) := do
  match ← findEntry m hasFree .partialList with
  | some a => some (some a, setCur m a)
  | none =>
      match ← findEntry m hasFree .emptyList with
      | some a => some (some a, setCur m a)
      | none => some (none, m)

/-- `find_slab`. -/
def findSlab (m : MemPool) : Option (Option Nat × MemPool) :=
  match m.pool.slabs.cur with
  | none => loadSlab m
  | some c => do
      let slab ← m.pool.mem c
      if slab.free = 0 then loadSlab m else some (some c, m)

/-- The list moves of `alloc_obj_from_slab`. -/
def allocMoves (links : Links SlabNode) (a : Nat) (freeIdx lastFreeIdx : Int) (used : Nat) :
    Links SlabNode :=
  let links := if freeIdx = lastFreeIdx then moveList links a .fullList else links
  if used = 1 then moveList links a .partialList else links

/-- `alloc_obj_from_slab`: the address of the object and the pool after it. -/
def allocObjFromSlab (m : MemPool) (a : Nat) : Option (Nat × MemPool) := do
  let slab ← m.pool.mem a
  if slab.freeIdx < 0 then
    none
  else
    let slab' := takeIdx slab
    some ((slab.objBase + toUnsigned 32 (slab.freeIdx * m.pool.size)) % 2 ^ 64,
      { links := allocMoves m.links a slab.freeIdx slab'.lastFreeIdx slab'.used
        pool := { m.pool with
          mem := Function.update m.pool.mem a (some slab')
          slabs := { m.pool.slabs with
            freeObjs := sub64 m.pool.slabs.freeObjs 1
            usedObjs := add64 m.pool.slabs.usedObjs 1 } } })

/-- The end of `mempool_alloc`, once a slab is found. -/
def allocFrom (m : MemPool) (a : Nat) : Option (Option Nat × MemPool) :=
  (allocObjFromSlab m a).map fun r => (some r.1, { r.2 with pool := callCtor r.2.pool r.1 })

/-- `mempool_alloc`: the address returned (NULL as `none`) and the pool. -/
def mempoolAlloc (m : MemPool) (calloc malloc : Option Nat) : Option (Option Nat × MemPool) :=
  if m.pool.slabs.freeObjs = 0 then
    match slabAlloc m calloc malloc with
    | none => some (none, m)
    | some (a, m) => allocFrom m a
  else do
    let (found, m) ← findSlab m
    match found with
    | none => some (none, m)
    | some a => allocFrom m a

-- ── Release ──────────────────────────────────────────────────────────────────

/-- `find_obj_slab`. -/
def findObjSlab (m : MemPool) (obj : Nat) : Option (Option Nat) :=
  if m.pool.slabs.usedObjs = 0 then
    some none
  else do
    match ← findEntry m (addrInSlab obj) .partialList with
    | some a => some (some a)
    | none => findEntry m (addrInSlab obj) .fullList

/-- `free_one_slab`. -/
def freeOneSlab (m : MemPool) (a : Nat) : Option MemPool := do
  let slab ← m.pool.mem a
  let pool := freeObjsLoop slab m.pool m.pool.numPerSlab
  some
    { links := ListHead.listDel m.links (.slab a)
      pool := { pool with
        mem := Function.update pool.mem a none
        slabs := { pool.slabs with slabNums := sub64 pool.slabs.slabNums 1 } } }

/-- A slab that became unused is released when `list_empty` finds another empty
    slab, else it becomes the empty slab. -/
def settleUnused (m : MemPool) (a used : Nat) : Option MemPool :=
  if used = 0 then
    if listEmpty m.links .emptyHead = false then freeOneSlab m a
    else some { m with links := moveList m.links a .emptyList }
  else some m

/-- The branch for the first free object of a full slab. -/
def settleFirstFree (m : MemPool) (a : Nat) (freeIdx lastFreeIdx : Int) : Option MemPool :=
  if lastFreeIdx = -1 then do
    let slab ← m.pool.mem a
    some
      { links := moveList m.links a .partialList
        pool := { m.pool with
          mem := Function.update m.pool.mem a (some { slab with lastFreeIdx := freeIdx }) } }
  else some m

/-- `free_obj2slab`. -/
def freeObj2slab (obj a : Nat) (m : MemPool) : Option MemPool := do
  let slab ← m.pool.mem a
  let freeIdx := objIdx m.pool slab obj
  if freeIdx < 0 then
    none
  else
    let slab' := putIdx slab freeIdx
    let m ← settleUnused
      { m with pool := { m.pool with mem := Function.update m.pool.mem a (some slab') } }
      a slab'.used
    let m ← settleFirstFree m a freeIdx slab'.lastFreeIdx
    some { m with pool := { m.pool with slabs := { m.pool.slabs with
      freeObjs := add64 m.pool.slabs.freeObjs 1
      usedObjs := sub64 m.pool.slabs.usedObjs 1 } } }

/-- `mempool_free` on a pool. -/
def mempoolFree (m : MemPool) (obj : Nat) : Option MemPool := do
  match ← findObjSlab m obj with
  | some a => freeObj2slab obj a m
  | none => some m

/-- `list_for_each_entry_safe` with `free_one_slab`, from `pos` on with `n` behind
    it, within some rounds. -/
def freeSlabs (head : SlabNode) : Nat → SlabNode → SlabNode → MemPool → Option MemPool
  | 0, _, _, _ => none
  | k + 1, pos, n, m =>
      if pos = head then some m
      else
        match pos with
        | .slab a => do
            let m ← freeOneSlab m a
            freeSlabs head k n (m.links.next n) m
        | _ => none

/-- The loop over one list. -/
def freeList (rounds : Nat) (l : SlabList) (m : MemPool) : Option MemPool :=
  freeSlabs (headOf l) rounds (m.links.next (headOf l)) (m.links.next (m.links.next (headOf l))) m

/-- `free_all_slabs`. -/
def freeAllSlabs (m : MemPool) : Option MemPool :=
  if m.pool.slabs.slabNums = 0 then
    some m
  else do
    let rounds := m.pool.slabs.slabNums + 1
    let m ← freeList rounds .partialList m
    let m ← freeList rounds .fullList m
    freeList rounds .emptyList m

/-- `mempool_destory`, up to the release of the pool structure itself. -/
def mempoolDestory (m : MemPool) : Option MemPool := freeAllSlabs m

-- ── The relation ─────────────────────────────────────────────────────────────

/-- Everything but the lists. -/
def bare (pool : Pool) : Pool :=
  { pool with slabs := { pool.slabs with partialSlabs := [], fullSlabs := [], emptySlabs := [] } }

/-- The heads with their slabs. -/
def heads (slabs : SlabsInfo) : Heads SlabNode :=
  [(.partialHead, slabs.partialSlabs.map .slab), (.fullHead, slabs.fullSlabs.map .slab),
    (.emptyHead, slabs.emptySlabs.map .slab)]

/-- The links hold the lists of the pool, and every structure is on one. -/
structure Same (m : MemPool) (pool : Pool) : Prop where
  held : Holds m.links (heads pool.slabs)
  rest : m.pool = bare pool
  listed : ∀ a s, pool.mem a = some s → a ∈ pool.slabs.held

section Lists

variable {links : Links SlabNode} {slabs slabs' : SlabsInfo} {a : Nat} {l : SlabList}

/-- The two lists besides one. -/
def others (slabs : SlabsInfo) : SlabList → Heads SlabNode
  | .partialList =>
      [(.fullHead, slabs.fullSlabs.map .slab), (.emptyHead, slabs.emptySlabs.map .slab)]
  | .fullList =>
      [(.partialHead, slabs.partialSlabs.map .slab), (.emptyHead, slabs.emptySlabs.map .slab)]
  | .emptyList =>
      [(.partialHead, slabs.partialSlabs.map .slab), (.fullHead, slabs.fullSlabs.map .slab)]

/-- Any list can be taken first. -/
theorem heads_perm (slabs : SlabsInfo) (l : SlabList) :
    (heads slabs).Perm ((headOf l, (listOf slabs l).map .slab) :: others slabs l) := by
  cases l with
  | partialList => exact List.Perm.refl _
  | fullList => exact List.Perm.swap ..
  | emptyList => exact List.perm_append_singleton _ (others slabs .emptyList)

theorem held_front (h : Holds links (heads slabs)) (l : SlabList) :
    Holds links ((headOf l, (listOf slabs l).map .slab) :: others slabs l) :=
  h.perm (heads_perm slabs l)

theorem off_heads (ha : a ∉ slabs.held) : Off (heads slabs) (.slab a) := by
  rw [mem_held, not_exists] at ha
  have hp := ha .partialList
  have hf := ha .fullList
  have he := ha .emptyList
  simp only [listOf] at hp hf he
  simp [Off, heads, hp, hf, he]

theorem heads_nodup (h : Holds links (heads slabs)) : slabs.held.Nodup := by
  have hnd := ListHead.Rings.nodup h
  simp only [heads, List.map_cons, List.map_nil, List.flatten_cons, List.flatten_nil,
    List.append_nil] at hnd
  have hmap : (slabs.held.map SlabNode.slab).Nodup := by
    rw [SlabsInfo.held, List.map_append, List.map_append, List.append_assoc]
    exact hnd.sublist ((List.sublist_cons_self ..).append
      ((List.sublist_cons_self ..).append (List.sublist_cons_self ..)))
  exact hmap.of_map

theorem map_erase_slab (l : List Nat) (a : Nat) :
    (l.map SlabNode.slab).erase (.slab a) = (l.erase a).map .slab := by
  refine (List.map_erase ?_ l).symm
  rintro b c ⟨⟩
  rfl

/-- `list_del` of a held slab. -/
theorem del_heads (h : Holds links (heads slabs)) (ha : a ∈ slabs.held) :
    Holds (ListHead.listDel links (.slab a)) (heads (eraseSlab slabs a)) := by
  have hnd := heads_nodup h
  obtain ⟨l, hl⟩ := mem_held.mp ha
  have hdel := (held_front h l).del (List.mem_map_of_mem hl)
  rw [map_erase_slab] at hdel
  have hoff : ∀ l', l' ≠ l → (listOf slabs l').erase a = listOf slabs l' := by
    intro l' hne
    exact List.erase_of_not_mem fun hl' => hne (listOf_unique hnd hl' hl)
  have hrest : others (eraseSlab slabs a) l = others slabs l := by
    cases l with
    | partialList =>
        simp only [others, eraseSlab]
        rw [show slabs.fullSlabs.erase a = _ from hoff .fullList (by simp),
          show slabs.emptySlabs.erase a = _ from hoff .emptyList (by simp)]
        rfl
    | fullList =>
        simp only [others, eraseSlab]
        rw [show slabs.partialSlabs.erase a = _ from hoff .partialList (by simp),
          show slabs.emptySlabs.erase a = _ from hoff .emptyList (by simp)]
        rfl
    | emptyList =>
        simp only [others, eraseSlab]
        rw [show slabs.partialSlabs.erase a = _ from hoff .partialList (by simp),
          show slabs.fullSlabs.erase a = _ from hoff .fullList (by simp)]
        rfl
  have hlist : (listOf slabs l).erase a = listOf (eraseSlab slabs a) l := by
    cases l <;> rfl
  rw [hlist, ← hrest] at hdel
  exact hdel.perm (heads_perm _ l).symm

/-- `list_add` of a slab on no list. -/
theorem add_heads (h : Holds links (heads slabs)) (ha : a ∉ slabs.held) (l : SlabList) :
    Holds (WaitQueue.listAdd links (.slab a) (headOf l)) (heads (Mempool.listAdd slabs a l)) := by
  have hadd := (held_front h l).push ((off_heads ha).perm (heads_perm slabs l))
  have hlist : SlabNode.slab a :: (listOf slabs l).map .slab
      = (listOf (Mempool.listAdd slabs a l) l).map .slab := by
    cases l <;> rfl
  have hrest : others slabs l = others (Mempool.listAdd slabs a l) l := by
    cases l <;> rfl
  rw [hlist, hrest] at hadd
  exact hadd.perm (heads_perm _ l).symm

/-- **MOVE**: `MOVE_LIST` of a held slab. -/
theorem move_heads (h : Holds links (heads slabs)) (ha : a ∈ slabs.held) (l : SlabList) :
    ∃ slabs', Mempool.moveList slabs a l = some slabs'
      ∧ Holds (moveList links a l) (heads slabs') ∧ SameBooks slabs slabs'
      ∧ ∀ b, b ∈ slabs.held → b ∈ slabs'.held := by
  have hnd := heads_nodup h
  obtain ⟨slabs', hmove, hrel, -, hbooks⟩ := moveList_spec l hnd ha
  refine ⟨slabs', hmove, ?_, hbooks, fun b hb => (hrel.perm.mem_iff).mpr hb⟩
  rw [Mempool.moveList, listDel_eq ha, Option.map_some, Option.some.injEq] at hmove
  subst hmove
  refine add_heads (del_heads h ha) ?_ l
  obtain ⟨-, -, hmem, -⟩ := listDel_spec hnd ha
  rw [mem_held]
  rintro ⟨d, hd⟩
  exact ((hmem a d).mp hd).1 rfl

end Lists

-- ── Lockstep ─────────────────────────────────────────────────────────────────

/-- The same answer, and the same pool. -/
def Answers {β : Type} (r : β × MemPool) (r' : β × Pool) : Prop := r.1 = r'.1 ∧ Same r.2 r'.2

section Steps

variable {m : MemPool} {pool pool' : Pool} {a : Nat} {s : Slab} {l : SlabList}

/-- One structure changes, and its slab is on a list. -/
theorem listed_update {mem : Nat → Option Slab} {held held' : List Nat}
    (h : ∀ b s, mem b = some s → b ∈ held) (hsub : ∀ b, b ∈ held → b ∈ held') (ha : a ∈ held')
    (o : Option Slab) : ∀ b s, Function.update mem a o b = some s → b ∈ held' := by
  intro b s hb
  by_cases hba : b = a
  · rw [hba]
    exact ha
  · rw [Function.update_of_ne hba] at hb
    exact hsub b (h b s hb)

theorem Same.mem_eq (h : Same m pool) : m.pool.mem = pool.mem := by
  rw [h.rest]
  rfl

/-- Slabs move from list to list. -/
theorem Same.relist (h : Same m pool) {links : Links SlabNode} {slabs : SlabsInfo}
    (hheld : Holds links (heads slabs)) (hbooks : SameBooks pool.slabs slabs)
    (hsub : ∀ b, b ∈ pool.slabs.held → b ∈ slabs.held) :
    Same { m with links := links } { pool with slabs := slabs } where
  held := hheld
  rest := by
    rw [h.rest]
    simp only [bare, hbooks.cur, hbooks.slabNums, hbooks.totalObjs, hbooks.usedObjs,
      hbooks.freeObjs]
  listed := fun b s hs => hsub b (h.listed b s hs)

/-- A slab that is on a list changes. -/
theorem Same.put (h : Same m pool) (ha : a ∈ pool.slabs.held) (s : Slab) :
    Same { m with pool := { m.pool with mem := Function.update pool.mem a (some s) } }
      { pool with mem := Function.update pool.mem a (some s) } where
  held := h.held
  rest := by
    rw [h.rest]
    rfl
  listed := listed_update h.listed (fun _ hb => hb) ha _

-- ── Searches ─────────────────────────────────────────────────────────────────

theorem slab_ne_head (a : Nat) (l : SlabList) : SlabNode.slab a ≠ headOf l := by
  cases l <;> simp [headOf]

/-- The loop goes through the slabs that it has not met. -/
theorem firstEntry_eq {F : Heads SlabNode} (test : Slab → Bool) :
    ∀ (v u : List Nat) (k : Nat) (pos : SlabNode),
      Holds m.links ((headOf l, (u ++ v).map .slab) :: F) →
      (v.map SlabNode.slab ++ [headOf l]).head? = some pos → v.length < k →
      firstEntry m test (headOf l) k pos = Mempool.firstEntry m.pool.mem test v := by
  intro v
  induction v with
  | nil =>
      intro u k pos _ hpos hk
      obtain ⟨k, rfl⟩ := Nat.exists_eq_add_of_lt hk
      have hph : headOf l = pos := Option.some.inj hpos
      subst hph
      cases l <;> exact if_pos rfl
  | cons a v ih =>
      intro u k pos h hpos hk
      obtain ⟨k, rfl⟩ := Nat.exists_eq_add_of_lt hk
      have hpa : SlabNode.slab a = pos := Option.some.inj hpos
      subst hpa
      have hnext : (v.map SlabNode.slab ++ [headOf l]).head? = some (m.links.next (.slab a)) := by
        rw [List.map_append, List.map_cons] at h
        exact h.next_entry
      have hrest : Holds m.links ((headOf l, ((u ++ [a]) ++ v).map .slab) :: F) := by
        rw [List.append_assoc]
        exact h
      rw [firstEntry, if_neg (slab_ne_head a l), Mempool.firstEntry]
      cases m.pool.mem a with
      | none => rfl
      | some slab =>
          simp only [Option.bind_eq_bind, Option.bind_some]
          rw [ih (u ++ [a]) _ _ hrest hnext (by rw [List.length_cons]; omega)]

/-- **FIND**: following the links finds what going through the list does. -/
theorem findEntry_eq (h : Same m pool)
    (hlen : pool.slabs.held.length ≤ pool.slabs.slabNums) (test : Slab → Bool) (l : SlabList) :
    findEntry m test l = Mempool.firstEntry pool.mem test (listOf pool.slabs l) := by
  have hfront := held_front h.held l
  have hle : (listOf pool.slabs l).length ≤ pool.slabs.held.length := by
    rw [SlabsInfo.held, List.length_append, List.length_append]
    cases l <;> simp only [listOf] <;> omega
  have hnums : m.pool.slabs.slabNums = pool.slabs.slabNums := by
    rw [h.rest]
    rfl
  rw [findEntry, firstEntry_eq test (listOf pool.slabs l) [] _ _ hfront hfront.next_head (by omega),
    h.mem_eq]

theorem Same.setCur (h : Same m pool) (a : Nat) :
    Same (setCur m a) { pool with slabs := { pool.slabs with cur := some a } } where
  held := h.held
  rest := by
    rw [MempoolMem.setCur, h.rest]
    rfl
  listed := h.listed

theorem loadSlab_rel (h : Same m pool) (hlen : pool.slabs.held.length ≤ pool.slabs.slabNums) :
    Option.Rel Answers (loadSlab m) (Mempool.loadSlab pool) := by
  rw [loadSlab, Mempool.loadSlab, findEntry_eq h hlen, findEntry_eq h hlen]
  simp only [listOf]
  cases Mempool.firstEntry pool.mem hasFree pool.slabs.partialSlabs with
  | none => exact Option.Rel.none
  | some found =>
      cases found with
      | some a => exact Option.Rel.some ⟨rfl, h.setCur a⟩
      | none =>
          simp only [Option.bind_eq_bind, Option.bind_some]
          cases Mempool.firstEntry pool.mem hasFree pool.slabs.emptySlabs with
          | none => exact Option.Rel.none
          | some found =>
              cases found with
              | some a => exact Option.Rel.some ⟨rfl, h.setCur a⟩
              | none => exact Option.Rel.some ⟨rfl, h⟩

theorem findSlab_rel (h : Same m pool) (hlen : pool.slabs.held.length ≤ pool.slabs.slabNums) :
    Option.Rel Answers (findSlab m) (Mempool.findSlab pool) := by
  have hcur : m.pool.slabs.cur = pool.slabs.cur := by
    rw [h.rest]
    rfl
  rw [findSlab, Mempool.findSlab, hcur]
  cases pool.slabs.cur with
  | none => exact loadSlab_rel h hlen
  | some c =>
      simp only [h.mem_eq]
      cases pool.mem c with
      | none => exact Option.Rel.none
      | some slab =>
          simp only [Option.bind_eq_bind, Option.bind_some]
          by_cases hfree : slab.free = 0
          · rw [if_pos hfree, if_pos hfree]
            exact loadSlab_rel h hlen
          · rw [if_neg hfree, if_neg hfree]
            exact Option.Rel.some ⟨rfl, h⟩

-- ── Allocation ───────────────────────────────────────────────────────────────

/-- A new slab is on the empty list. -/
theorem slabAlloc_same (h : Same m pool) (ha : a ∉ pool.slabs.held) (base : Nat) :
    ∃ m' pool', slabAlloc m (some a) (some base) = some (a, m')
      ∧ Mempool.slabAlloc pool (some a) (some base) = some (a, pool') ∧ Same m' pool' := by
  refine ⟨_, _, rfl, rfl, ?_, ?_, ?_⟩
  · exact add_heads h.held ha .emptyList
  · rw [h.rest]
    rfl
  · have hperm := listAdd_held pool.slabs a .emptyList
    exact listed_update h.listed (fun b hb => hperm.mem_iff.mpr (List.mem_cons_of_mem a hb))
      (hperm.mem_iff.mpr List.mem_cons_self) _

theorem allocMoves_heads {links : Links SlabNode} {slabs : SlabsInfo}
    (h : Holds links (heads slabs)) (ha : a ∈ slabs.held) (freeIdx lastFreeIdx : Int) (used : Nat) :
    ∃ slabs', Mempool.allocMoves slabs a freeIdx lastFreeIdx used = some slabs'
      ∧ Holds (allocMoves links a freeIdx lastFreeIdx used) (heads slabs') ∧ SameBooks slabs slabs'
      ∧ ∀ b, b ∈ slabs.held → b ∈ slabs'.held := by
  have hfirst : ∃ slabs₁, (if freeIdx = lastFreeIdx then Mempool.moveList slabs a .fullList
        else some slabs) = some slabs₁
      ∧ Holds (if freeIdx = lastFreeIdx then moveList links a .fullList else links) (heads slabs₁)
      ∧ SameBooks slabs slabs₁ ∧ ∀ b, b ∈ slabs.held → b ∈ slabs₁.held := by
    by_cases hlast : freeIdx = lastFreeIdx
    · rw [if_pos hlast, if_pos hlast]
      exact move_heads h ha .fullList
    · rw [if_neg hlast, if_neg hlast]
      exact ⟨slabs, rfl, h, ⟨rfl, rfl, rfl, rfl, rfl⟩, fun _ hb => hb⟩
  obtain ⟨slabs₁, heq, h₁, hbooks, hsub⟩ := hfirst
  rw [Mempool.allocMoves, heq, Option.bind_some, allocMoves]
  by_cases hone : used = 1
  · obtain ⟨slabs₂, heq₂, h₂, hbooks₂, hsub₂⟩ := move_heads h₁ (hsub a ha) .partialList
    rw [if_pos hone, if_pos hone]
    exact ⟨slabs₂, heq₂, h₂, hbooks.trans hbooks₂, fun b hb => hsub₂ b (hsub b hb)⟩
  · rw [if_neg hone, if_neg hone]
    exact ⟨slabs₁, rfl, h₁, hbooks, hsub⟩

theorem allocObjFromSlab_rel (h : Same m pool) (a : Nat) :
    Option.Rel Answers (allocObjFromSlab m a) (Mempool.allocObjFromSlab pool a) := by
  rw [allocObjFromSlab, Mempool.allocObjFromSlab, h.mem_eq]
  refine rel_bind (rel_refl _) ?_
  rintro slab _ hs rfl
  have ha := h.listed a slab hs
  obtain ⟨slabs', heq, hheld, hbooks, hsub⟩ := allocMoves_heads h.held ha slab.freeIdx
    (takeIdx slab).lastFreeIdx (takeIdx slab).used
  have hput := (h.relist hheld hbooks hsub).put (hsub a ha) (takeIdx slab)
  dsimp only
  by_cases hneg : slab.freeIdx < 0
  · rw [if_pos hneg, if_pos hneg]
    exact Option.Rel.none
  · rw [if_neg hneg, if_neg hneg, heq]
    refine Option.Rel.some ⟨by rw [h.rest]; rfl, hput.held, ?_, hput.listed⟩
    rw [h.rest]
    simp only [bare, hbooks.cur, hbooks.slabNums, hbooks.totalObjs, hbooks.usedObjs,
      hbooks.freeObjs]

theorem callCtor_bare (pool : Pool) (obj : Nat) :
    callCtor (bare pool) obj = bare (callCtor pool obj) := by
  rw [callCtor, callCtor, show (bare pool).ops = pool.ops from rfl]
  cases pool.ops with
  | none => rfl
  | some ops =>
      dsimp only
      by_cases hctor : ops.ctor = true
      · rw [if_pos hctor, if_pos hctor]
        rfl
      · rw [if_neg hctor, if_neg hctor]

theorem allocFrom_rel (h : Same m pool) (a : Nat) :
    Option.Rel Answers (allocFrom m a) (Mempool.allocFrom pool a) := by
  refine rel_map (allocObjFromSlab_rel h a) ?_
  rintro ⟨x, m'⟩ ⟨y, pool'⟩ ⟨rfl, hsame⟩
  obtain ⟨-, hslabs, hmem⟩ := MempoolStep.callCtor_eq pool' x
  refine ⟨rfl, ?_, ?_, ?_⟩
  · rw [hslabs]
    exact hsame.held
  · show callCtor m'.pool x = bare (callCtor pool' x)
    rw [← callCtor_bare, ← hsame.rest]
  · rw [hslabs, hmem]
    exact hsame.listed

/-- **ALLOCATION**: the same address, and the same pool. -/
theorem mempoolAlloc_rel (h : Same m pool)
    (hlen : pool.slabs.held.length ≤ pool.slabs.slabNums) {calloc : Option Nat}
    (hfresh : ∀ a, calloc = some a → a ∉ pool.slabs.held) (malloc : Option Nat) :
    Option.Rel Answers (mempoolAlloc m calloc malloc)
      (Mempool.mempoolAlloc pool calloc malloc) := by
  have hfree : m.pool.slabs.freeObjs = pool.slabs.freeObjs := by
    rw [h.rest]
    rfl
  rw [mempoolAlloc, Mempool.mempoolAlloc, hfree]
  by_cases h0 : pool.slabs.freeObjs = 0
  · rw [if_pos h0, if_pos h0]
    cases calloc with
    | none => exact Option.Rel.some ⟨rfl, h⟩
    | some a =>
        cases malloc with
        | none => exact Option.Rel.some ⟨rfl, h⟩
        | some base =>
            obtain ⟨m', pool', hm, hp, hsame⟩ := slabAlloc_same h (hfresh a rfl) base
            simp only [hm, hp]
            exact allocFrom_rel hsame a
  · rw [if_neg h0, if_neg h0]
    refine rel_bind (findSlab_rel h hlen) ?_
    rintro ⟨x, m'⟩ ⟨y, pool'⟩ - ⟨rfl, hsame⟩
    cases x with
    | none => exact Option.Rel.some ⟨rfl, hsame⟩
    | some a => exact allocFrom_rel hsame a

-- ── Release ──────────────────────────────────────────────────────────────────

theorem findObjSlab_eq (h : Same m pool)
    (hlen : pool.slabs.held.length ≤ pool.slabs.slabNums) (obj : Nat) :
    findObjSlab m obj = Mempool.findObjSlab pool obj := by
  have hused : m.pool.slabs.usedObjs = pool.slabs.usedObjs := by
    rw [h.rest]
    rfl
  rw [findObjSlab, Mempool.findObjSlab, hused, findEntry_eq h hlen, findEntry_eq h hlen]
  rfl

theorem freeObjAt_bare (s : Slab) (i : Nat) (pool : Pool) :
    freeObjAt s i (bare pool) = bare (freeObjAt s i pool) := by
  rw [freeObjAt, freeObjAt]
  by_cases hused : countsAsUsed s i = true
  · rw [if_pos hused, if_pos hused]
    rfl
  · rw [if_neg hused, if_neg hused]
    rfl

/-- The objects of a slab are freed by the books alone. -/
theorem freeObjsLoop_bare (s : Slab) (pool : Pool) (k : Nat) :
    freeObjsLoop s (bare pool) k = bare (freeObjsLoop s pool k)
      ∧ (∀ l, listOf (freeObjsLoop s pool k).slabs l = listOf pool.slabs l)
      ∧ (freeObjsLoop s pool k).mem = pool.mem := by
  induction k with
  | zero => exact ⟨rfl, fun _ => rfl, rfl⟩
  | succ k ih =>
      obtain ⟨hbare, hlists, hmem⟩ := ih
      refine ⟨?_, ?_, ?_⟩
      · rw [freeObjsLoop, freeObjsLoop, hbare, freeObjAt_bare]
      · intro l
        rw [freeObjsLoop, ← hlists l, freeObjAt]
        by_cases hused : countsAsUsed s k = true
        · rw [if_pos hused]
          cases l <;> rfl
        · rw [if_neg hused]
          cases l <;> rfl
      · rw [freeObjsLoop, ← hmem, freeObjAt]
        by_cases hused : countsAsUsed s k = true
        · rw [if_pos hused]
        · rw [if_neg hused]

theorem heads_congr {slabs slabs' : SlabsInfo} (h : ∀ l, listOf slabs' l = listOf slabs l) :
    heads slabs' = heads slabs ∧ slabs'.held = slabs.held := by
  have hp : slabs'.partialSlabs = slabs.partialSlabs := h .partialList
  have hf : slabs'.fullSlabs = slabs.fullSlabs := h .fullList
  have he : slabs'.emptySlabs = slabs.emptySlabs := h .emptyList
  rw [heads, heads, SlabsInfo.held, SlabsInfo.held, hp, hf, he]
  exact ⟨rfl, rfl⟩

/-- **RELEASE OF A SLAB**: `list_del` takes it off the one list it is on. -/
theorem freeOneSlab_rel (h : Same m pool) (a : Nat) :
    Option.Rel Same (freeOneSlab m a) (Mempool.freeOneSlab pool a) := by
  rw [freeOneSlab, Mempool.freeOneSlab, h.mem_eq]
  refine rel_bind (rel_refl _) ?_
  rintro slab _ hs rfl
  obtain ⟨hbare, hlists, hmem⟩ := freeObjsLoop_bare slab pool pool.numPerSlab
  obtain ⟨hheads, hheld⟩ := heads_congr hlists
  have ha : a ∈ (freeObjsLoop slab pool pool.numPerSlab).slabs.held := by
    rw [hheld]
    exact h.listed a slab hs
  have hloop : freeObjsLoop slab m.pool m.pool.numPerSlab
      = bare (freeObjsLoop slab pool pool.numPerSlab) := by
    rw [h.rest]
    exact hbare
  have hheld' : Holds m.links (heads (freeObjsLoop slab pool pool.numPerSlab).slabs) := by
    rw [hheads]
    exact h.held
  dsimp only
  rw [listDel_eq ha, hloop]
  refine Option.Rel.some ⟨del_heads hheld' ha, rfl, ?_⟩
  intro b s hb
  replace hb : Function.update (freeObjsLoop slab pool pool.numPerSlab).mem a none b = some s := hb
  have hba : b ≠ a := by
    rintro rfl
    rw [Function.update_self] at hb
    cases hb
  rw [Function.update_of_ne hba, hmem] at hb
  obtain ⟨l, hl⟩ := mem_held.mp (h.listed b s hb)
  have herase : listOf (eraseSlab (freeObjsLoop slab pool pool.numPerSlab).slabs a) l
      = (listOf pool.slabs l).erase a := by
    rw [← hlists l]
    cases l <;> rfl
  refine mem_held.mpr ⟨l, ?_⟩
  show b ∈ listOf (eraseSlab _ a) l
  rw [herase]
  exact (List.mem_erase_of_ne hba).mpr hl

/-- The lists afterwards. -/
theorem freeOneSlab_lists (h : Mempool.freeOneSlab pool a = some pool') (l : SlabList) :
    listOf pool'.slabs l = (listOf pool.slabs l).erase a := by
  obtain ⟨slab, -, h⟩ := Option.bind_eq_some_iff.mp h
  obtain ⟨slabs, hdel, h⟩ := Option.bind_eq_some_iff.mp h
  obtain ⟨-, hlists, -⟩ := freeObjsLoop_bare slab pool pool.numPerSlab
  rw [Mempool.listDel, Option.ite_none_right_eq_some, Option.some.injEq] at hdel
  obtain ⟨-, rfl⟩ := hdel
  cases h
  rw [← hlists l]
  cases l <;> rfl

theorem settleUnused_rel (h : Same m pool) (ha : a ∈ pool.slabs.held) (used : Nat) :
    Option.Rel Same (settleUnused m a used) (Mempool.settleUnused pool a used) := by
  rw [settleUnused, Mempool.settleUnused]
  by_cases h0 : used = 0
  · have hempty : listEmpty m.links .emptyHead = decide (pool.slabs.emptySlabs = []) := by
      show listEmpty m.links (headOf .emptyList) = _
      rw [ListHead.listEmpty_eq (held_front h.held .emptyList)]
      simp [listOf]
    rw [if_pos h0, if_pos h0, hempty]
    by_cases hnil : pool.slabs.emptySlabs = []
    · obtain ⟨slabs', heq, hheld, hbooks, hsub⟩ := move_heads h.held ha .emptyList
      rw [decide_eq_true hnil, if_neg (by simp), if_neg (not_not.mpr hnil), heq]
      exact Option.Rel.some (h.relist hheld hbooks hsub)
    · rw [decide_eq_false hnil, if_pos rfl, if_pos hnil]
      exact freeOneSlab_rel h a
  · rw [if_neg h0, if_neg h0]
    exact Option.Rel.some h

theorem settleFirstFree_rel (h : Same m pool) (a : Nat) (freeIdx lastFreeIdx : Int) :
    Option.Rel Same (settleFirstFree m a freeIdx lastFreeIdx)
      (Mempool.settleFirstFree pool a freeIdx lastFreeIdx) := by
  rw [settleFirstFree, Mempool.settleFirstFree]
  by_cases hlast : lastFreeIdx = -1
  · rw [if_pos hlast, if_pos hlast, h.mem_eq]
    refine rel_bind (rel_refl _) ?_
    rintro slab _ hs rfl
    have ha := h.listed a slab hs
    obtain ⟨slabs', heq, hheld, hbooks, hsub⟩ := move_heads h.held ha .partialList
    rw [heq]
    exact Option.Rel.some ((h.relist hheld hbooks hsub).put (hsub a ha) _)
  · rw [if_neg hlast, if_neg hlast]
    exact Option.Rel.some h

theorem freeObj2slab_rel (h : Same m pool) (obj a : Nat) :
    Option.Rel Same (freeObj2slab obj a m) (Mempool.freeObj2slab obj a pool) := by
  rw [freeObj2slab, Mempool.freeObj2slab, h.mem_eq]
  refine rel_bind (rel_refl _) ?_
  rintro slab _ hs rfl
  have ha := h.listed a slab hs
  have hidx : objIdx m.pool slab obj = objIdx pool slab obj := by
    rw [h.rest]
    rfl
  dsimp only
  rw [hidx]
  by_cases hneg : objIdx pool slab obj < 0
  · rw [if_pos hneg, if_pos hneg]
    exact Option.Rel.none
  · rw [if_neg hneg, if_neg hneg]
    refine rel_bind (settleUnused_rel (h.put ha _) ha _) ?_
    intro m₁ pool₁ _ h₁
    refine rel_bind (settleFirstFree_rel h₁ a _ _) ?_
    intro m₂ pool₂ _ h₂
    refine Option.Rel.some ⟨h₂.held, ?_, h₂.listed⟩
    rw [h₂.rest]
    rfl

/-- **RELEASE**: both pools put the object back. -/
theorem mempoolFree_rel (h : Same m pool)
    (hlen : pool.slabs.held.length ≤ pool.slabs.slabNums) (obj : Nat) :
    Option.Rel Same (mempoolFree m obj) (Mempool.mempoolFree pool obj) := by
  rw [mempoolFree, Mempool.mempoolFree, findObjSlab_eq h hlen]
  cases Mempool.findObjSlab pool obj with
  | none => exact Option.Rel.none
  | some found =>
      cases found with
      | none => exact Option.Rel.some h
      | some a => exact freeObj2slab_rel h obj a

-- ── Destruction ──────────────────────────────────────────────────────────────

/-- No list grows while slabs are freed. -/
theorem freeSlabs_length : ∀ (v : List Nat) (pool pool' : Pool),
    Mempool.freeSlabs pool v = some pool' → ∀ l,
      (listOf pool'.slabs l).length ≤ (listOf pool.slabs l).length := by
  intro v
  induction v with
  | nil =>
      intro pool pool' hfree l
      cases hfree
      exact Nat.le_refl _
  | cons a v ih =>
      intro pool pool' hfree l
      obtain ⟨pool₁, hone, hrest⟩ := Option.bind_eq_some_iff.mp hfree
      refine (ih pool₁ pool' hrest l).trans ?_
      rw [freeOneSlab_lists hone l]
      exact List.length_erase_le

/-- The loop frees the slab it stands on, and goes on with the one behind it,
    which it read before. -/
theorem freeSlabs_rel (l : SlabList) : ∀ (v : List Nat) (m : MemPool) (pool : Pool) (k : Nat)
    (pos n : SlabNode), Same m pool → listOf pool.slabs l = v →
      (v.map SlabNode.slab ++ [headOf l]).head? = some pos → n = m.links.next pos → v.length < k →
        Option.Rel Same (freeSlabs (headOf l) k pos n m) (Mempool.freeSlabs pool v) := by
  intro v
  induction v with
  | nil =>
      intro m pool k pos n h _ hpos _ hk
      obtain ⟨k, rfl⟩ := Nat.exists_eq_add_of_lt hk
      have hph : headOf l = pos := Option.some.inj hpos
      subst hph
      have hend : freeSlabs (headOf l) (0 + k + 1) (headOf l) n m = some m := by
        cases l <;> exact if_pos rfl
      exact hend ▸ Option.Rel.some h
  | cons a v ih =>
      intro m pool k pos n h hlist hpos hn hk
      obtain ⟨k, rfl⟩ := Nat.exists_eq_add_of_lt hk
      have hpa : SlabNode.slab a = pos := Option.some.inj hpos
      subst hpa
      have hnext : (v.map SlabNode.slab ++ [headOf l]).head? = some n := by
        have hfront := held_front h.held l
        rw [hlist, List.map_cons] at hfront
        rw [hn]
        exact ListHead.Holds.next_entry (s := []) hfront
      rw [freeSlabs, if_neg (slab_ne_head a l), Mempool.freeSlabs]
      refine rel_bind (freeOneSlab_rel h a) ?_
      intro m₁ pool₁ hone h₁
      refine ih m₁ pool₁ _ n _ h₁ ?_ hnext rfl (by rw [List.length_cons]; omega)
      rw [freeOneSlab_lists hone l, hlist, List.erase_cons_head]

theorem freeList_rel (h : Same m pool) (l : SlabList) {rounds : Nat}
    (hlen : (listOf pool.slabs l).length < rounds) :
    Option.Rel Same (freeList rounds l m) (Mempool.freeSlabs pool (listOf pool.slabs l)) :=
  freeSlabs_rel l _ m pool rounds _ _ h rfl (held_front h.held l).next_head rfl hlen

/-- **DESTRUCTION**: all slabs are freed, whatever list they are on. -/
theorem mempoolDestory_rel (h : Same m pool)
    (hlen : pool.slabs.held.length ≤ pool.slabs.slabNums) :
    Option.Rel Same (mempoolDestory m) (Mempool.mempoolDestory pool) := by
  have hnums : m.pool.slabs.slabNums = pool.slabs.slabNums := by
    rw [h.rest]
    rfl
  have hle : ∀ l, (listOf pool.slabs l).length < pool.slabs.slabNums + 1 := by
    intro l
    rw [SlabsInfo.held, List.length_append, List.length_append] at hlen
    cases l <;> simp only [listOf] <;> omega
  rw [mempoolDestory, freeAllSlabs, Mempool.mempoolDestory, Mempool.freeAllSlabs, hnums]
  by_cases h0 : pool.slabs.slabNums = 0
  · rw [if_pos h0, if_pos h0]
    exact Option.Rel.some h
  · rw [if_neg h0, if_neg h0]
    refine rel_bind (freeList_rel h .partialList (hle _)) ?_
    intro m₁ pool₁ hfree₁ h₁
    have hle₁ := freeSlabs_length _ _ _ hfree₁
    refine rel_bind (freeList_rel h₁ .fullList ((hle₁ _).trans_lt (hle _))) ?_
    intro m₂ pool₂ hfree₂ h₂
    have hle₂ := freeSlabs_length _ _ _ hfree₂
    exact freeList_rel h₂ .emptyList (((hle₂ _).trans (hle₁ _)).trans_lt (hle _))

end Steps

end MempoolMem
