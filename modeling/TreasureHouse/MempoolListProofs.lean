import Mathlib.Data.List.Count
import Mathlib.Data.List.Nodup
import TreasureHouse.MempoolProofs

/-! # The three slab lists — moving, removing and searching

    `MOVE_LIST` keeps the slabs a pool holds and changes where one of them is
    (`moveList_spec`), `list_del` takes one slab out (`listDel_spec`), and the
    searches stop at the first slab that passes their test
    (`firstEntry_spec`). -/

namespace MempoolList

open Mempool

/-- The list behind a list head. -/
def listOf (slabs : SlabsInfo) : SlabList → List Nat
  | .partialList => slabs.partialSlabs
  | .fullList => slabs.fullSlabs
  | .emptyList => slabs.emptySlabs

theorem mem_held {slabs : SlabsInfo} {a : Nat} : a ∈ slabs.held ↔ ∃ d, a ∈ listOf slabs d := by
  rw [SlabsInfo.held, List.mem_append, List.mem_append]
  constructor
  · rintro ((h | h) | h)
    · exact ⟨.partialList, h⟩
    · exact ⟨.fullList, h⟩
    · exact ⟨.emptyList, h⟩
  · rintro ⟨d, h⟩
    cases d with
    | partialList => exact Or.inl (Or.inl h)
    | fullList => exact Or.inl (Or.inr h)
    | emptyList => exact Or.inr h

theorem held_nodup_listOf {slabs : SlabsInfo} (h : slabs.held.Nodup) (d : SlabList) :
    (listOf slabs d).Nodup := by
  rw [SlabsInfo.held] at h
  have h1 := List.Nodup.of_append_left h
  cases d with
  | partialList => exact List.Nodup.of_append_left h1
  | fullList => exact List.Nodup.of_append_right h1
  | emptyList => exact List.Nodup.of_append_right h

/-- A held slab is on one list only. -/
theorem listOf_unique {slabs : SlabsInfo} (h : slabs.held.Nodup) {a : Nat} {d d' : SlabList}
    (h1 : a ∈ listOf slabs d) (h2 : a ∈ listOf slabs d') : d = d' := by
  have hcount := List.nodup_iff_count_le_one.mp h a
  rw [SlabsInfo.held, List.count_append, List.count_append] at hcount
  have hpos : ∀ {d}, a ∈ listOf slabs d → 0 < (listOf slabs d).count a :=
    fun h => List.count_pos_iff.mpr h
  have h1 := hpos h1
  have h2 := hpos h2
  cases d <;> cases d' <;> first
    | rfl
    | (simp only [listOf] at h1 h2; omega)

/-- Same counters and same `cur`. -/
structure SameBooks (slabs slabs' : SlabsInfo) : Prop where
  cur : slabs'.cur = slabs.cur
  slabNums : slabs'.slabNums = slabs.slabNums
  totalObjs : slabs'.totalObjs = slabs.totalObjs
  usedObjs : slabs'.usedObjs = slabs.usedObjs
  freeObjs : slabs'.freeObjs = slabs.freeObjs

/-- The lists hold the same slabs and only `a` may be on another one. -/
structure Relisted (a : Nat) (slabs slabs' : SlabsInfo) : Prop where
  perm : slabs'.held.Perm slabs.held
  others : ∀ b d, b ≠ a → (b ∈ listOf slabs' d ↔ b ∈ listOf slabs d)

theorem SameBooks.refl (slabs : SlabsInfo) : SameBooks slabs slabs := ⟨rfl, rfl, rfl, rfl, rfl⟩

theorem SameBooks.trans {s1 s2 s3 : SlabsInfo} (h1 : SameBooks s1 s2) (h2 : SameBooks s2 s3) :
    SameBooks s1 s3 where
  cur := h2.cur.trans h1.cur
  slabNums := h2.slabNums.trans h1.slabNums
  totalObjs := h2.totalObjs.trans h1.totalObjs
  usedObjs := h2.usedObjs.trans h1.usedObjs
  freeObjs := h2.freeObjs.trans h1.freeObjs

theorem Relisted.refl (a : Nat) (slabs : SlabsInfo) : Relisted a slabs slabs :=
  ⟨List.Perm.refl _, fun _ _ _ => Iff.rfl⟩

theorem Relisted.trans {a : Nat} {s1 s2 s3 : SlabsInfo} (h1 : Relisted a s1 s2)
    (h2 : Relisted a s2 s3) : Relisted a s1 s3 where
  perm := h2.perm.trans h1.perm
  others := fun b d hb => (h2.others b d hb).trans (h1.others b d hb)

/-- Counters and `cur` do not matter for the lists. -/
theorem Relisted.rebook {a : Nat} {s1 s2 s3 : SlabsInfo} (h : Relisted a s1 s2)
    (hl : ∀ d, listOf s3 d = listOf s2 d) : Relisted a s1 s3 := by
  have hheld : s3.held = s2.held := by
    show listOf s3 .partialList ++ listOf s3 .fullList ++ listOf s3 .emptyList = _
    rw [hl, hl, hl]
    rfl
  exact ⟨by rw [hheld]; exact h.perm, fun b d hb => by rw [hl]; exact h.others b d hb⟩

theorem listDel_eq {slabs : SlabsInfo} {a : Nat} (ha : a ∈ slabs.held) :
    listDel slabs a = some (eraseSlab slabs a) := if_pos ha

/-- `list_del` of a held slab. -/
theorem listDel_spec {slabs : SlabsInfo} {a : Nat} (hnd : slabs.held.Nodup)
    (ha : a ∈ slabs.held) :
    listDel slabs a = some (eraseSlab slabs a)
      ∧ slabs.held.Perm (a :: (eraseSlab slabs a).held)
      ∧ (∀ b d, b ∈ listOf (eraseSlab slabs a) d ↔ b ≠ a ∧ b ∈ listOf slabs d)
      ∧ SameBooks slabs (eraseSlab slabs a) := by
  refine ⟨listDel_eq ha, ?_, ?_, ⟨rfl, rfl, rfl, rfl, rfl⟩⟩
  · -- the one list that has `a` loses it, the other two stay
    refine List.perm_iff_count.mpr fun b => ?_
    have hle := List.nodup_iff_count_le_one.mp hnd a
    have hpos := List.count_pos_iff.mpr ha
    simp only [SlabsInfo.held, eraseSlab, List.count_append, List.count_cons] at hle hpos ⊢
    by_cases hba : b = a
    · subst hba
      rw [List.count_erase_self, List.count_erase_self, List.count_erase_self]
      simp only [beq_self_eq_true, if_true]
      omega
    · rw [List.count_erase_of_ne hba, List.count_erase_of_ne hba, List.count_erase_of_ne hba]
      simp [Ne.symm hba]
  · intro b d
    have hmem := (held_nodup_listOf hnd d).mem_erase_iff (a := b) (b := a)
    cases d with
    | partialList => exact hmem
    | fullList => exact hmem
    | emptyList => exact hmem

theorem listAdd_held (slabs : SlabsInfo) (a : Nat) (d : SlabList) :
    (listAdd slabs a d).held.Perm (a :: slabs.held) := by
  cases d with
  | partialList => exact List.Perm.refl _
  | fullList =>
      show (slabs.partialSlabs ++ a :: slabs.fullSlabs ++ slabs.emptySlabs).Perm _
      rw [SlabsInfo.held, List.append_assoc, List.append_assoc]
      exact List.perm_middle
  | emptyList => exact List.perm_middle

theorem mem_listAdd {slabs : SlabsInfo} {a b : Nat} {d d' : SlabList} :
    b ∈ listOf (listAdd slabs a d) d' ↔ (b = a ∧ d' = d) ∨ b ∈ listOf slabs d' := by
  cases d <;> cases d' <;> simp [listAdd, listOf]

theorem listAdd_books (slabs : SlabsInfo) (a : Nat) (d : SlabList) :
    SameBooks slabs (listAdd slabs a d) := by
  cases d <;> exact ⟨rfl, rfl, rfl, rfl, rfl⟩

/-- A moved slab is held again. -/
theorem moveList_held {slabs : SlabsInfo} {a : Nat} (d : SlabList) (ha : a ∈ slabs.held) :
    ∃ slabs', moveList slabs a d = some slabs' ∧ a ∈ slabs'.held :=
  ⟨listAdd (eraseSlab slabs a) a d, by rw [moveList, listDel_eq ha]; rfl,
    mem_held.mpr ⟨d, mem_listAdd.mpr (Or.inl ⟨rfl, rfl⟩)⟩⟩

/-- `MOVE_LIST` of a held slab. -/
theorem moveList_spec {slabs : SlabsInfo} {a : Nat} (d : SlabList) (hnd : slabs.held.Nodup)
    (ha : a ∈ slabs.held) :
    ∃ slabs', moveList slabs a d = some slabs' ∧ Relisted a slabs slabs'
      ∧ (∀ d', a ∈ listOf slabs' d' ↔ d' = d) ∧ SameBooks slabs slabs' := by
  obtain ⟨hdel, hperm, hmem, hbooks⟩ := listDel_spec hnd ha
  refine ⟨listAdd (eraseSlab slabs a) a d, by rw [moveList, hdel]; rfl, ?_, ?_,
    hbooks.trans (listAdd_books _ a d)⟩
  · refine ⟨(listAdd_held _ a d).trans hperm.symm, ?_⟩
    intro b d' hb
    rw [mem_listAdd, hmem]
    constructor
    · rintro (⟨rfl, _⟩ | h)
      · exact absurd rfl hb
      · exact h.2
    · exact fun h => Or.inr ⟨hb, h⟩
  · intro d'
    rw [mem_listAdd, hmem]
    simp

/-- A search over allocated slabs finds the first that passes, or none does. -/
theorem firstEntry_spec {mem : Nat → Option Slab} (test : Slab → Bool) :
    ∀ {l : List Nat}, (∀ a ∈ l, ∃ slab, mem a = some slab) →
      (∃ a slab, a ∈ l ∧ mem a = some slab ∧ test slab = true
          ∧ firstEntry mem test l = some (some a))
        ∨ (firstEntry mem test l = some none
          ∧ ∀ a ∈ l, ∀ slab, mem a = some slab → test slab = false) := by
  intro l
  induction l with
  | nil => exact fun _ => Or.inr ⟨rfl, fun a ha => absurd ha (List.not_mem_nil)⟩
  | cons a l ih =>
      intro hl
      obtain ⟨slab, hslab⟩ := hl a (List.mem_cons_self ..)
      rw [firstEntry, hslab, Option.bind_eq_bind, Option.bind_some]
      by_cases ht : test slab = true
      · rw [if_pos ht]
        exact Or.inl ⟨a, slab, List.mem_cons_self .., hslab, ht, rfl⟩
      · rw [if_neg ht]
        rcases ih (fun b hb => hl b (List.mem_cons_of_mem _ hb)) with
          ⟨b, sb, hb, hsb, htb, heq⟩ | ⟨heq, hall⟩
        · exact Or.inl ⟨b, sb, List.mem_cons_of_mem _ hb, hsb, htb, heq⟩
        · refine Or.inr ⟨heq, ?_⟩
          intro b hb sb hsb
          rcases List.mem_cons.mp hb with rfl | hb
          · rw [hslab] at hsb
            cases hsb
            exact Bool.eq_false_iff.mpr ht
          · exact hall b hb sb hsb

end MempoolList
