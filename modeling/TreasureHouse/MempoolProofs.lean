import TreasureHouse.LabelledRunProofs
import TreasureHouse.MachineIntProofs

/-! # `memory/mempool.c` — slabs, free chains and the pool

    Fields keep the C widths: what the source stores into a `short`, an
    `unsigned short`, an `int`, an `unsigned int` or an `unsigned long` goes
    through `toSigned` or `toUnsigned` of that width, and comparisons are made
    after C's promotions, so a `freelist_idx_t` is never equal to -1.

    A slab structure is known by its address; `mem` holds the structures that
    are allocated, and the three intrusive lists are lists of addresses.  An
    access to a structure that is not allocated, `list_del` of a slab on no
    list, a failed assertion and a division by zero have no result (`none`).
    The results of `calloc` and `malloc` are arguments. -/

namespace Mempool

open MachineInt LabelledRun

/-- `PAGE_SIZE`. -/
def pageSize : Nat := 4096

/-- `MALLOC_MAX_ORDER`. -/
def mallocMaxOrder : Nat := 6

/-- `SLAB_OBJ_MIN_NUM`. -/
def slabObjMinNum : Nat := 8

/-- `sizeof(void *)`. -/
def bytesPerWord : Nat := 8

/-- -1 stored into a `freelist_idx_t`. -/
def noIdx : Nat := toUnsigned 16 (-1)

/-- Which callbacks of `struct mempool_ops` are set. -/
structure MempoolOps where
  ctor : Bool
  dctor : Bool

/-- `struct slab`, without its list links. -/
structure Slab where
  sBase : Nat
  objBase : Nat
  objEnd : Nat
  freeIdx : Int
  lastFreeIdx : Int
  used : Nat
  free : Nat
  freelist : Nat → Nat

/-- `struct slabs_info`. -/
structure SlabsInfo where
  partialSlabs : List Nat
  fullSlabs : List Nat
  emptySlabs : List Nat
  cur : Option Nat
  slabNums : Nat
  totalObjs : Nat
  usedObjs : Nat
  freeObjs : Nat

/-- `struct mempool`, the slab structures it points to, and the objects its
    callbacks were called on. -/
structure Pool where
  name : String
  size : Nat
  objSize : Int
  align : Int
  numPerSlab : Nat
  order : Nat
  ops : Option MempoolOps
  slabs : SlabsInfo
  mem : Nat → Option Slab
  ctorCalls : List Nat
  dctorCalls : List Nat

/-- `PAGE_SIZE << order`. -/
def Pool.slabSize (pool : Pool) : Nat := pageSize * 2 ^ pool.order

/-- `x += y` on `unsigned long`. -/
def add64 (x y : Nat) : Nat := (x + y) % 2 ^ 64

/-- `x -= y` on `unsigned long`. -/
def sub64 (x y : Nat) : Nat := toUnsigned 64 ((x : Int) - y)

-- ── Creation ─────────────────────────────────────────────────────────────────

/-- `ALIGN(x, a)` for an `unsigned long` or pointer `x`. -/
def alignTo (x : Nat) (a : Int) : Nat := maskUp x (toUnsigned 64 (a - 1))

/-- `calculate_alignment`; flags and size do not enter. -/
def calculateAlignment (align : Nat) : Nat := alignTo align bytesPerWord

/-- `mempool_estimate`: number of objects and left-over bytes. -/
def mempoolEstimate (order bufferSize : Nat) (align : Int) : Option (Nat × Nat) :=
  let slabSize := pageSize * 2 ^ order
  let subAlignSize := toUnsigned 64 ((slabSize : Int) - toUnsigned 64 align)
  if bufferSize = 0 then none
  else some (toUnsigned 32 ((subAlignSize / bufferSize : Nat) : Int), subAlignSize % bufferSize)

/-- The loop of `calculate_slab_order` from `order` on, `k` rounds left;
    `(num_per_slab, order, left_over)` is what is saved so far. -/
def slabOrderLoop (size : Nat) (align : Int) :
    Nat → Nat → Nat × Nat × Nat → Option (Nat × Nat × Nat)
  | 0, _, saved => some saved
  | k + 1, order, saved => do
      let (num, remainder) ← mempoolEstimate order size align
      if num = 0 then
        slabOrderLoop size align k (order + 1) saved
      else if num < slabObjMinNum then
        slabOrderLoop size align k (order + 1) saved
      else if (remainder * 8) % 2 ^ 64 ≤ pageSize * 2 ^ order then
        some (num, order, remainder)
      else
        slabOrderLoop size align k (order + 1) (num, order, remainder)

/-- `calculate_slab_order` on a pool whose `num_per_slab` was set to 0. -/
def calculateSlabOrder (size : Nat) (align : Int) : Option (Nat × Nat × Nat) :=
  slabOrderLoop size align (mallocMaxOrder + 1) 0 (0, 0, 0)

/-- `init_slabs_info`. -/
def initSlabsInfo : SlabsInfo where
  partialSlabs := []
  fullSlabs := []
  emptySlabs := []
  cur := none
  slabNums := 0
  totalObjs := 0
  usedObjs := 0
  freeObjs := 0

/-- `mempool_create`, given the names of the existing pools and whether
    `calloc` succeeds.  NULL is `some none`. -/
def mempoolCreate (mempoolList : List String) (name : Option String) (objSize align : Nat)
    (ops : Option MempoolOps) (calloc : Bool) : Option (Option Pool) :=
  match name with
  | none => some none
  | some name =>
      if name ∈ mempoolList then
        some none
      else if ¬ calloc then
        some none
      else do
        let poolAlign := toSigned 32 (calculateAlignment align)
        let poolSize := toUnsigned 32 (alignTo objSize poolAlign)
        let (num, order, _) ← calculateSlabOrder poolSize poolAlign
        if num = 0 then
          some none
        else
          some (some {
            name := name
            size := poolSize
            objSize := toSigned 32 objSize
            align := poolAlign
            numPerSlab := num
            order := order
            ops := ops
            slabs := initSlabsInfo
            mem := fun _ => none
            ctorCalls := []
            dctorCalls := [] })

-- ── Lists ────────────────────────────────────────────────────────────────────

/-- The three list heads. -/
inductive SlabList where
  | partialList
  | fullList
  | emptyList

/-- The slabs the pool holds. -/
def SlabsInfo.held (slabs : SlabsInfo) : List Nat :=
  slabs.partialSlabs ++ slabs.fullSlabs ++ slabs.emptySlabs

/-- The slab leaves the list it is on. -/
def eraseSlab (slabs : SlabsInfo) (a : Nat) : SlabsInfo :=
  { slabs with
    partialSlabs := slabs.partialSlabs.erase a
    fullSlabs := slabs.fullSlabs.erase a
    emptySlabs := slabs.emptySlabs.erase a }

/-- `list_del(&slab->list)`. -/
def listDel (slabs : SlabsInfo) (a : Nat) : Option SlabsInfo :=
  if a ∈ slabs.held then some (eraseSlab slabs a) else none

/-- `list_add(&slab->list, head)`. -/
def listAdd (slabs : SlabsInfo) (a : Nat) : SlabList → SlabsInfo
  | .partialList => { slabs with partialSlabs := a :: slabs.partialSlabs }
  | .fullList => { slabs with fullSlabs := a :: slabs.fullSlabs }
  | .emptyList => { slabs with emptySlabs := a :: slabs.emptySlabs }

/-- `MOVE_LIST`. -/
def moveList (slabs : SlabsInfo) (a : Nat) (dest : SlabList) : Option SlabsInfo :=
  (listDel slabs a).map fun slabs => listAdd slabs a dest

/-- `list_for_each_entry` up to the first slab that passes a test. -/
def firstEntry (mem : Nat → Option Slab) (test : Slab → Bool) : List Nat → Option (Option Nat)
  | [] => some none
  | a :: l => do
      let slab ← mem a
      if test slab then some (some a) else firstEntry mem test l

-- ── Allocation ───────────────────────────────────────────────────────────────

/-- `init_freelist`, its loop after `k` rounds. -/
def initFreelistLoop (freelist : Nat → Nat) : Nat → Nat → Nat
  | 0 => freelist
  | k + 1 => Function.update (initFreelistLoop freelist k) k (toUnsigned 16 ((k + 1 : Nat) : Int))

def initFreelist (freelist : Nat → Nat) (num : Nat) : Nat → Nat :=
  Function.update (initFreelistLoop freelist (num - 1)) (num - 1) noIdx

/-- The structure `slab_alloc` fills in; `calloc` has zeroed it. -/
def newSlab (pool : Pool) (base : Nat) : Slab :=
  let objBase := alignTo base pool.align
  { sBase := base
    objBase := objBase
    objEnd := (objBase + pool.numPerSlab * pool.size) % 2 ^ 64
    freeIdx := 0
    lastFreeIdx := toSigned 16 ((pool.numPerSlab : Int) - 1)
    used := 0
    free := toUnsigned 16 pool.numPerSlab
    freelist := initFreelist (fun _ => 0) pool.numPerSlab }

/-- `slab_alloc`: NULL when one of the two allocations fails. -/
def slabAlloc (pool : Pool) (calloc malloc : Option Nat) : Option (Nat × Pool) :=
  match calloc, malloc with
  | some a, some base =>
      let slabs := listAdd pool.slabs a .emptyList
      some (a, { pool with
        mem := Function.update pool.mem a (some (newSlab pool base))
        slabs := { slabs with
          slabNums := add64 slabs.slabNums 1
          freeObjs := add64 slabs.freeObjs pool.numPerSlab
          totalObjs := add64 slabs.totalObjs pool.numPerSlab
          cur := some a } })
  | _, _ => none

/-- The test of `load_slab`. -/
def hasFree (slab : Slab) : Bool := decide (slab.free > 0)

/-- `load_slab`: the slab found and the new `cur`. -/
def loadSlab (pool : Pool) : Option (Option Nat × Pool) := do
  match ← firstEntry pool.mem hasFree pool.slabs.partialSlabs with
  | some a => some (some a, { pool with slabs := { pool.slabs with cur := some a } })
  | none =>
      match ← firstEntry pool.mem hasFree pool.slabs.emptySlabs with
      | some a => some (some a, { pool with slabs := { pool.slabs with cur := some a } })
      | none => some (none, pool)

/-- `find_slab`. -/
def findSlab (pool : Pool) : Option (Option Nat × Pool) :=
  match pool.slabs.cur with
  | none => loadSlab pool
  | some c => do
      let slab ← pool.mem c
      if slab.free = 0 then loadSlab pool else some (some c, pool)

/-- The fields of the slab after `alloc_obj_from_slab` took its first free
    index. -/
def takeIdx (slab : Slab) : Slab :=
  { slab with
    freeIdx := toSigned 16 (slab.freelist slab.freeIdx.toNat)
    freelist := Function.update slab.freelist slab.freeIdx.toNat noIdx
    free := toUnsigned 16 ((slab.free : Int) - 1)
    used := toUnsigned 16 ((slab.used : Int) + 1) }

/-- The list moves of `alloc_obj_from_slab`.  The source compares
    `last_free_idx` with -1 where it means to assign, so the field stays. -/
def allocMoves (slabs : SlabsInfo) (a : Nat) (freeIdx lastFreeIdx : Int) (used : Nat) :
    Option SlabsInfo :=
  (if freeIdx = lastFreeIdx then moveList slabs a .fullList else some slabs).bind fun slabs =>
    if used = 1 then moveList slabs a .partialList else some slabs

/-- `alloc_obj_from_slab`: the address of the object and the pool after it. -/
def allocObjFromSlab (pool : Pool) (a : Nat) : Option (Nat × Pool) := do
  let slab ← pool.mem a
  if slab.freeIdx < 0 then
    none
  else
    let slab' := takeIdx slab
    let slabs ← allocMoves pool.slabs a slab.freeIdx slab'.lastFreeIdx slab'.used
    some ((slab.objBase + toUnsigned 32 (slab.freeIdx * pool.size)) % 2 ^ 64,
      { pool with
        mem := Function.update pool.mem a (some slab')
        slabs := { slabs with
          freeObjs := sub64 slabs.freeObjs 1
          usedObjs := add64 slabs.usedObjs 1 } })

/-- The callback of `mempool_alloc` on a fresh object. -/
def callCtor (pool : Pool) (obj : Nat) : Pool :=
  match pool.ops with
  | some ops => if ops.ctor then { pool with ctorCalls := pool.ctorCalls ++ [obj] } else pool
  | none => pool

/-- The end of `mempool_alloc`, once a slab is found. -/
def allocFrom (pool : Pool) (a : Nat) : Option (Option Nat × Pool) :=
  (allocObjFromSlab pool a).map fun r => (some r.1, callCtor r.2 r.1)

/-- `mempool_alloc`: the address returned (NULL as `none`) and the pool. -/
def mempoolAlloc (pool : Pool) (calloc malloc : Option Nat) : Option (Option Nat × Pool) :=
  if pool.slabs.freeObjs = 0 then
    match slabAlloc pool calloc malloc with
    | none => some (none, pool)
    | some (a, pool) => allocFrom pool a
  else do
    let (found, pool) ← findSlab pool
    match found with
    | none => some (none, pool)
    | some a => allocFrom pool a

-- ── Release ──────────────────────────────────────────────────────────────────

/-- The test of `find_obj_slab`; the upper bound of `ADDR_IN_SLAB` is
    inclusive. -/
def addrInSlab (obj : Nat) (slab : Slab) : Bool :=
  decide (slab.used > 0) && decide (slab.objBase ≤ obj) && decide (obj ≤ slab.objEnd)

/-- `find_obj_slab`. -/
def findObjSlab (pool : Pool) (obj : Nat) : Option (Option Nat) :=
  if pool.slabs.usedObjs = 0 then
    some none
  else do
    match ← firstEntry pool.mem (addrInSlab obj) pool.slabs.partialSlabs with
    | some a => some (some a)
    | none => firstEntry pool.mem (addrInSlab obj) pool.slabs.fullSlabs

/-- The condition of `free_all_objs_one_slab` under which an index counts as
    used: both -1 are compared with an `unsigned short` promoted to `int`. -/
def countsAsUsed (slab : Slab) (i : Nat) : Bool :=
  decide ((toUnsigned 16 slab.freeIdx : Int) = -1)
    || (decide ((slab.freelist i : Int) = -1) && decide (i ≠ toUnsigned 16 slab.lastFreeIdx))

/-- `ops && ops->dctor`. -/
def Pool.hasDctor (pool : Pool) : Bool :=
  match pool.ops with
  | some ops => ops.dctor
  | none => false

/-- One round of `free_all_objs_one_slab`. -/
def freeObjAt (slab : Slab) (i : Nat) (pool : Pool) : Pool :=
  let pool :=
    if countsAsUsed slab i then
      { pool with
        dctorCalls :=
          if pool.hasDctor then pool.dctorCalls ++ [(slab.objBase + i * pool.size) % 2 ^ 64]
          else pool.dctorCalls
        slabs := { pool.slabs with usedObjs := sub64 pool.slabs.usedObjs 1 } }
    else
      { pool with slabs := { pool.slabs with freeObjs := sub64 pool.slabs.freeObjs 1 } }
  { pool with slabs := { pool.slabs with totalObjs := sub64 pool.slabs.totalObjs 1 } }

/-- `free_all_objs_one_slab`, its loop after `k` rounds. -/
def freeObjsLoop (slab : Slab) (pool : Pool) : Nat → Pool
  | 0 => pool
  | k + 1 => freeObjAt slab k (freeObjsLoop slab pool k)

/-- `free_one_slab`. -/
def freeOneSlab (pool : Pool) (a : Nat) : Option Pool := do
  let slab ← pool.mem a
  let pool := freeObjsLoop slab pool pool.numPerSlab
  let slabs ← listDel pool.slabs a
  some { pool with
    mem := Function.update pool.mem a none
    slabs := { slabs with slabNums := sub64 slabs.slabNums 1 } }

/-- The index `free_obj2slab` computes from the address. -/
def objIdx (pool : Pool) (slab : Slab) (obj : Nat) : Int :=
  toSigned 16 ((toUnsigned 64 ((obj : Int) - slab.objBase) / pool.size : Nat) : Int)

/-- The fields of the slab after `free_obj2slab` put an index back. -/
def putIdx (slab : Slab) (i : Int) : Slab :=
  { slab with
    freelist := Function.update slab.freelist i.toNat (toUnsigned 16 slab.freeIdx)
    freeIdx := i
    free := toUnsigned 16 ((slab.free : Int) + 1)
    used := toUnsigned 16 ((slab.used : Int) - 1) }

/-- A slab that became unused is released when there is another empty slab,
    else it becomes the empty slab. -/
def settleUnused (pool : Pool) (a used : Nat) : Option Pool :=
  if used = 0 then
    if pool.slabs.emptySlabs ≠ [] then freeOneSlab pool a
    else (moveList pool.slabs a .emptyList).map fun slabs => { pool with slabs := slabs }
  else some pool

/-- The branch for the first free object of a full slab.  `last_free_idx` is
    the value the field last had. -/
def settleFirstFree (pool : Pool) (a : Nat) (freeIdx lastFreeIdx : Int) : Option Pool :=
  if lastFreeIdx = -1 then do
    let slab ← pool.mem a
    let slabs ← moveList pool.slabs a .partialList
    some { pool with
      mem := Function.update pool.mem a (some { slab with lastFreeIdx := freeIdx })
      slabs := slabs }
  else some pool

/-- `free_obj2slab`. -/
def freeObj2slab (obj a : Nat) (pool : Pool) : Option Pool := do
  let slab ← pool.mem a
  let freeIdx := objIdx pool slab obj
  if freeIdx < 0 then
    none
  else
    let slab' := putIdx slab freeIdx
    let pool ← settleUnused { pool with mem := Function.update pool.mem a (some slab') } a slab'.used
    let pool ← settleFirstFree pool a freeIdx slab'.lastFreeIdx
    some { pool with slabs := { pool.slabs with
      freeObjs := add64 pool.slabs.freeObjs 1
      usedObjs := sub64 pool.slabs.usedObjs 1 } }

/-- `mempool_free` on a pool. -/
def mempoolFree (pool : Pool) (obj : Nat) : Option Pool := do
  match ← findObjSlab pool obj with
  | some a => freeObj2slab obj a pool
  | none => some pool

/-- `list_for_each_entry_safe` over one list with `free_one_slab`. -/
def freeSlabs : Pool → List Nat → Option Pool
  | pool, [] => some pool
  | pool, a :: l => (freeOneSlab pool a).bind fun pool => freeSlabs pool l

/-- `free_all_slabs`. -/
def freeAllSlabs (pool : Pool) : Option Pool :=
  if pool.slabs.slabNums = 0 then
    some pool
  else do
    let pool ← freeSlabs pool pool.slabs.partialSlabs
    let pool ← freeSlabs pool pool.slabs.fullSlabs
    freeSlabs pool pool.slabs.emptySlabs

/-- `mempool_destory`, up to the release of the pool structure itself. -/
def mempoolDestory (pool : Pool) : Option Pool := freeAllSlabs pool

-- ── Runs ─────────────────────────────────────────────────────────────────────

/-- A pool together with the objects handed out and not freed. -/
structure PoolState where
  pool : Pool
  live : List Nat

/-- The calls of a client, with what the C library would return for a new
    slab. -/
inductive Op where
  | alloc (calloc malloc : Option Nat)
  | free (obj : Nat)

/-- The block at `base` does not meet the block of a held slab. -/
def disjointFrom (pool : Pool) (base a : Nat) : Bool :=
  match pool.mem a with
  | none => true
  | some slab =>
      decide (base + pool.slabSize ≤ slab.sBase) || decide (slab.sBase + pool.slabSize ≤ base)

/-- What is assumed of `calloc` and `malloc`: a new structure is none of the
    held ones, and a new block is not at NULL, lies in the address space and
    meets no block that is held. -/
def mallocOk (pool : Pool) (calloc malloc : Option Nat) : Bool :=
  (match calloc with
    | none => true
    | some a => decide (a ∉ pool.slabs.held))
  && (match malloc with
    | none => true
    | some base => decide (0 < base) && decide (base + pool.slabSize ≤ 2 ^ 64)
        && pool.slabs.held.all (disjointFrom pool base))

/-- One call.  Only live objects are freed. -/
def opStep (st : PoolState) : Op → Option PoolState
  | .alloc calloc malloc =>
      if mallocOk st.pool calloc malloc then
        (mempoolAlloc st.pool calloc malloc).map fun r =>
          { pool := r.2, live := r.1.toList ++ st.live }
      else none
  | .free obj =>
      if obj ∈ st.live then
        (mempoolFree st.pool obj).map fun pool => { pool := pool, live := st.live.erase obj }
      else none

/-- A state a fresh pool of `objSize` bytes and `align` starts in. -/
def Created (objSize align : Nat) (st : PoolState) : Prop :=
  ∃ mempoolList name ops, mempoolCreate mempoolList name objSize align ops true
      = some (some st.pool) ∧ st.live = []

/-- The states reached by `mempool_alloc` and `mempool_free` of live objects. -/
def Reachable (objSize align : Nat) (st : PoolState) : Prop :=
  Reach (Created objSize align) (fires opStep) st

end Mempool
