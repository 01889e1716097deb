import Mathlib.Algebra.Group.Nat.Defs
import Mathlib.Data.List.Basic
import Mathlib.Logic.Function.Basic

/-! # Bounded buffers — stores, `snprintf` and truncated output

    A buffer of `len` cells is a function on positions; a store outside
    `0 .. len - 1` has no result.  `snprintf` stores a prefix of its text and
    a terminator and returns the length of the whole text.

      • `PutOut`: a text has been put out up to a write index, which may run
        past the buffer; what fits next to a terminator is in the cells.
      • `PutOut.append` and its instances: one more piece of text.
      • `PutOut.terminate`: the terminator, at the index or in the last cell. -/

namespace BoundedBuffer

variable {α : Type}

-- ── Stores ───────────────────────────────────────────────────────────────────

/-- One store. -/
def store (len : Int) (mem : Int → α) (p : Int) (c : α) : Option (Int → α) :=
  if 0 ≤ p ∧ p < len then some (Function.update mem p c) else none

/-- Stores to consecutive cells from `p` on. -/
def storeAll (len : Int) (mem : Int → α) (p : Int) : List α → Option (Int → α)
  | [] => some mem
  | c :: text => (store len mem p c).bind fun mem => storeAll len mem (p + 1) text

/-- `snprintf(str, size, …)` for a text already formatted, at position `str`.
    The length returned has to be an `int`. -/
def snprintf (nul : α) (len : Int) (mem : Int → α) (str : Int) (size : Nat) (text : List α) :
    Option (Int × (Int → α)) :=
  if 2 ^ 31 ≤ text.length then none
  else if size = 0 then some (text.length, mem)
  else (storeAll len mem str (text.take (size - 1) ++ [nul])).map fun mem => (text.length, mem)

/-- The cells from `p` on hold a text. -/
def Holds (mem : Int → α) (p : Int) : List α → Prop
  | [] => True
  | c :: text => mem p = c ∧ Holds mem (p + 1) text

theorem Holds.congr {mem mem' : Int → α} : ∀ {text : List α} {p : Int}, Holds mem p text →
    (∀ q, p ≤ q → q < p + text.length → mem' q = mem q) → Holds mem' p text := by
  intro text
  induction text with
  | nil => exact fun _ _ => trivial
  | cons c text ih =>
      intro p h heq
      rw [List.length_cons] at heq
      refine ⟨(heq p (Int.le_refl p) (by omega)).trans h.1, ih h.2 ?_⟩
      intro q h1 h2
      exact heq q (by omega) (by omega)

theorem holds_append {mem : Int → α} {tail : List α} : ∀ {text : List α} {p : Int},
    Holds mem p (text ++ tail) ↔ Holds mem p text ∧ Holds mem (p + text.length) tail := by
  intro text
  induction text with
  | nil =>
      intro p
      rw [List.nil_append, List.length_nil, Int.natCast_zero, Int.add_zero]
      exact (and_iff_right trivial).symm
  | cons c text ih =>
      intro p
      rw [List.cons_append, Holds, Holds, ih, and_assoc, List.length_cons, Int.natCast_succ,
        Int.add_assoc p 1, Int.add_comm 1]

/-- Stores inside the buffer succeed, hold their text and touch nothing
    else. -/
theorem storeAll_spec {len : Int} : ∀ {text : List α} (mem : Int → α) {p : Int}, 0 ≤ p →
    p + text.length ≤ len → ∃ mem', storeAll len mem p text = some mem' ∧ Holds mem' p text
      ∧ ∀ q, q < p ∨ p + text.length ≤ q → mem' q = mem q := by
  intro text
  induction text with
  | nil => exact fun _ _ _ _ => ⟨_, rfl, trivial, fun _ _ => rfl⟩
  | cons c text ih =>
      intro mem p h0 hle
      rw [List.length_cons] at hle
      obtain ⟨mem', heq, hholds, hframe⟩ := ih (Function.update mem p c)
        (show 0 ≤ p + 1 by omega) (by omega)
      refine ⟨mem', ?_, ⟨?_, hholds⟩, ?_⟩
      · rw [storeAll, store, if_pos ⟨h0, by omega⟩]
        exact heq
      · rw [hframe p (by omega), Function.update_self]
      · intro q hq
        rw [List.length_cons] at hq
        rw [hframe q (by omega), Function.update_of_ne (by omega)]

-- ── Truncated output ─────────────────────────────────────────────────────────

/-- The text `out` has been put out from the memory `before`, with the write
    index now at `i`. -/
structure PutOut (len : Int) (before : Int → α) (out : List α) (i : Int) (mem : Int → α) :
    Prop where
  index_nonneg : 0 ≤ i
  index : min i (len - 1) = min (out.length : Int) (len - 1)
  cells : Holds mem 0 (out.take (len - 1).toNat)
  outside : ∀ q, q < 0 ∨ len ≤ q → mem q = before q

section PutOut

variable {len i : Int} {before mem mem' : Int → α} {out text : List α}

theorem PutOut.start (len : Int) (mem : Int → α) : PutOut len mem [] 0 mem where
  index_nonneg := Int.le_refl 0
  index := rfl
  cells := by rw [List.take_nil]; trivial
  outside := fun _ _ => rfl

/-- Before the end of the buffer the index is the length of the text. -/
theorem PutOut.index_eq (h : PutOut len before out i mem) (hi : i < len - 1) :
    i = out.length := by
  have := h.index
  omega

/-- Past the end of the buffer more text changes nothing. -/
theorem PutOut.full (h : PutOut len before out i mem) (hi : len - 1 ≤ i) (text : List α) :
    PutOut len before (out ++ text) i mem where
  index_nonneg := h.index_nonneg
  index := by
    have := h.index
    rw [List.length_append]
    omega
  cells := by
    have := h.index
    rw [List.take_append_of_le_length (by omega)]
    exact h.cells
  outside := h.outside

/-- An index past the end may be cut down to the last cell. -/
theorem PutOut.clamp (h : PutOut len before out i mem) {j : Int} (h0 : 0 ≤ j)
    (hj : min j (len - 1) = min i (len - 1)) : PutOut len before out j mem where
  index_nonneg := h0
  index := hj.trans h.index
  cells := h.cells
  outside := h.outside

/-- One more piece of text, of which the cells from the index on hold what
    fits. -/
theorem PutOut.append (h : PutOut len before out i mem) (hi : i < len - 1)
    (hholds : Holds mem' i (text.take (len - 1 - i).toNat))
    (hframe : ∀ q, q < i ∨ len ≤ q → mem' q = mem q) :
    PutOut len before (out ++ text) (i + text.length) mem' where
  index_nonneg := by
    have := h.index_nonneg
    omega
  index := by
    rw [h.index_eq hi, List.length_append, Int.natCast_add]
  cells := by
    have heq := h.index_eq hi
    have hrest : (len - 1).toNat - out.length = (len - 1 - i).toNat := by omega
    rw [List.take_append, hrest, holds_append, List.take_of_length_le (by omega), Int.zero_add,
      ← heq]
    refine ⟨?_, hholds⟩
    have hout := h.cells
    rw [List.take_of_length_le (by omega)] at hout
    exact hout.congr fun q _ hq => hframe q (by omega)
  outside := by
    intro q hq
    have hge := h.index_nonneg
    rw [hframe q (by omega)]
    exact h.outside q hq

/-- One character, stored at the index. -/
theorem PutOut.store (h : PutOut len before out i mem) (hi : i < len - 1) (c : α) :
    ∃ mem', store len mem i c = some mem' ∧ PutOut len before (out ++ [c]) (i + 1) mem' := by
  have hge := h.index_nonneg
  refine ⟨Function.update mem i c, if_pos ⟨hge, by omega⟩, ?_⟩
  refine h.append hi ?_ ?_
  · rw [List.take_of_length_le (by rw [List.length_singleton]; omega)]
    exact ⟨Function.update_self .., trivial⟩
  · intro q hq
    rw [Function.update_of_ne (by omega)]

/-- `snprintf` at the index, with the size of the rest of the buffer. -/
theorem PutOut.snprintf (h : PutOut len before out i mem) (hi : i < len - 1) (nul : α)
    (htext : text.length < 2 ^ 31) :
    ∃ mem', snprintf nul len mem i (len - i).toNat text = some ((text.length : Int), mem')
      ∧ PutOut len before (out ++ text) (i + text.length) mem' := by
  have hge := h.index_nonneg
  have hsize : (len - i).toNat - 1 = (len - 1 - i).toNat := by omega
  have hlen : ((text.take (len - 1 - i).toNat ++ [nul]).length : Int) ≤ len - i := by
    rw [List.length_append, List.length_take, List.length_singleton]
    omega
  obtain ⟨mem', heq, hholds, hframe⟩ := storeAll_spec mem hge
    (show i + (text.take (len - 1 - i).toNat ++ [nul]).length ≤ len by omega)
  refine ⟨mem', ?_, ?_⟩
  · rw [BoundedBuffer.snprintf, if_neg (by omega), if_neg (by omega), hsize, heq, Option.map_some]
  · refine h.append hi (holds_append.mp hholds).1 ?_
    intro q hq
    exact hframe q (by omega)

/-- The terminator goes to the index, or to the last cell. -/
theorem PutOut.terminate (h : PutOut len before out i mem) (hlen : 1 ≤ len) (nul : α) :
    ∃ mem', BoundedBuffer.store len mem (if i < len then i else len - 1) nul = some mem'
      ∧ Holds mem' 0 (out.take (len - 1).toNat ++ [nul])
      ∧ ∀ q, q < 0 ∨ len ≤ q → mem' q = before q := by
  have hge := h.index_nonneg
  have hindex := h.index
  have hend : (if i < len then i else len - 1) = ((out.take (len - 1).toNat).length : Int) := by
    rw [List.length_take]
    split
    · omega
    · omega
  rw [hend]
  have hle : ((out.take (len - 1).toNat).length : Int) < len := by
    rw [List.length_take]
    omega
  refine ⟨_, if_pos ⟨Int.natCast_nonneg _, hle⟩, ?_, ?_⟩
  · rw [holds_append, Int.zero_add]
    refine ⟨?_, Function.update_self .., trivial⟩
    exact h.cells.congr fun q _ hq => Function.update_of_ne (by omega) ..
  · intro q hq
    rw [Function.update_of_ne (by omega)]
    exact h.outside q hq

end PutOut

end BoundedBuffer
