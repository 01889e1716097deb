import Mathlib.Data.List.Chain
import Mathlib.Data.List.Nodup
import Mathlib.Data.List.Perm.Basic
import Mathlib.Logic.Function.Basic
import TreasureHouse.SuccessionProofs

/-! # Link cycles — disjoint paths and cycles of doubly linked nodes

    Two maps, `next` and `prev`, hold some lists of nodes together: paths,
    whose neighbours are linked both ways, and cycles, whose last node is also
    linked to the first.  No node stands twice (`Linkage`).  What a pointer
    program does to its lists is then derived with a few rules:

      • `Linkage.join`, `Linkage.close`: linking the last node of a path to the
        first of another, or of the same, makes one path of two, or a cycle.
      • `Linkage.uncycle`, `Linkage.split`, `Linkage.drop`, `Linkage.fresh`:
        what may be forgotten, and what is there from the start.
      • `Linkage.rotate`, `Linkage.perm`: a cycle has no first node, and the
        lists have no order. -/

namespace LinkCycle

open Succession

variable {α : Type}

/-- `q` comes after `p`, and `p` before `q`. -/
def Linked (next prev : α → α) (p q : α) : Prop := next p = q ∧ prev q = p

/-- Neighbours are linked. -/
def Path (next prev : α → α) (s : List α) : Prop := s.IsChain (Linked next prev)

/-- A path whose last node is linked to its first. -/
def Cycle (next prev : α → α) (c : List α) : Prop :=
  Path next prev c ∧ ∀ p ∈ c.getLast?, ∀ q ∈ c.head?, Linked next prev p q

/-- The lists that two maps hold together. -/
structure Linkage (next prev : α → α) (paths cycles : List (List α)) : Prop where
  nodup : (paths.flatten ++ cycles.flatten).Nodup
  path : ∀ s ∈ paths, Path next prev s
  cycle : ∀ c ∈ cycles, Cycle next prev c

section Maps

variable {next prev next' prev' : α → α} {s t c : List α} {p q x : α}

-- ── Paths and cycles ─────────────────────────────────────────────────────────

theorem path_append : Path next prev (s ++ t) ↔ Path next prev s ∧ Path next prev t
    ∧ ∀ p ∈ s.getLast?, ∀ q ∈ t.head?, Linked next prev p q :=
  List.isChain_append

theorem path_singleton (x : α) : Path next prev [x] := List.isChain_singleton x

/-- A cycle begins anywhere. -/
theorem Cycle.rotate (h : Cycle next prev (s ++ t)) : Cycle next prev (t ++ s) := by
  obtain ⟨hpath, hclosed⟩ := h
  obtain ⟨hs, ht, hst⟩ := path_append.mp hpath
  cases s with
  | nil =>
      rw [List.append_nil]
      exact ⟨ht, by simpa using hclosed⟩
  | cons a s =>
      cases t with
      | nil => exact ⟨by simpa using hs, by simpa using hclosed⟩
      | cons b t =>
          refine ⟨path_append.mpr ⟨ht, hs, ?_⟩, ?_⟩
          · intro p hp q hq
            exact hclosed p (by rw [List.getLast?_append, hp]; rfl) q (by simpa using hq)
          · intro p hp q hq
            rw [List.getLast?_append_of_ne_nil _ (List.cons_ne_nil a s)] at hp
            exact hst p hp q (by simpa using hq)

/-- The two nodes where a cycle is cut are linked. -/
theorem Cycle.linked (h : Cycle next prev (s ++ t)) (hp : s.getLast? = some p)
    (hq : t.head? = some q) : Linked next prev p q :=
  (path_append.mp h.1).2.2 p hp q hq

theorem Cycle.closed (h : Cycle next prev c) (hp : c.getLast? = some p)
    (hq : c.head? = some q) : Linked next prev p q :=
  h.2 p hp q hq

/-- Only the links forwards of all nodes but the last matter, and those
    backwards of all but the first. -/
theorem Path.congr (h : Path next prev s) (hn : ∀ x ∈ s.dropLast, next' x = next x)
    (hp : ∀ x ∈ s.tail, prev' x = prev x) : Path next' prev' s := by
  induction s with
  | nil => exact List.isChain_nil
  | cons a s ih =>
      cases s with
      | nil => exact path_singleton a
      | cons b s =>
          obtain ⟨hab, hs⟩ := List.isChain_cons_cons.mp h
          refine List.isChain_cons_cons.mpr ⟨⟨?_, ?_⟩, ih hs ?_ ?_⟩
          · rw [hn a (by simp), hab.1]
          · rw [hp b (by simp), hab.2]
          · intro x hx
            exact hn x (by rw [List.dropLast_cons_cons]; exact List.mem_cons_of_mem a hx)
          · exact fun x hx => hp x (List.mem_of_mem_tail hx)

theorem Path.agree (h : Path next prev s) (hs : ∀ x ∈ s, next' x = next x ∧ prev' x = prev x) :
    Path next' prev' s :=
  h.congr (fun x hx => (hs x (List.dropLast_subset s hx)).1)
    fun x hx => (hs x (List.mem_of_mem_tail hx)).2

theorem Cycle.agree (h : Cycle next prev c) (hc : ∀ x ∈ c, next' x = next x ∧ prev' x = prev x) :
    Cycle next' prev' c := by
  refine ⟨h.1.agree hc, ?_⟩
  intro p hp q hq
  obtain ⟨hnext, hprev⟩ := h.2 p hp q hq
  exact ⟨by rw [(hc p (List.mem_of_getLast? hp)).1, hnext],
    by rw [(hc q (List.mem_of_mem_head? hq)).2, hprev]⟩

/-- The node after the first one of a cycle. -/
theorem Cycle.next_first {a : α} (h : Cycle next prev (a :: c)) :
    (c ++ [a]).head? = some (next a) := by
  cases c with
  | nil => rw [(h.closed (p := a) (q := a) rfl rfl).1]; rfl
  | cons b c =>
      rw [(Cycle.linked (s := [a]) (t := b :: c) (p := a) (q := b) h rfl rfl).1]
      rfl

/-- The node before the first one of a cycle. -/
theorem Cycle.prev_first {a : α} (h : Cycle next prev (a :: c)) :
    (a :: c).getLast? = some (prev a) := by
  obtain ⟨z, hz⟩ : ∃ z, (a :: c).getLast? = some z :=
    ⟨_, List.getLast?_eq_some_getLast (List.cons_ne_nil a c)⟩
  rw [(h.closed hz (q := a) rfl).2, hz]

/-- Once round a cycle, from its first node to its first node. -/
theorem Cycle.round {a : α} (h : Cycle next prev (a :: c)) : Path next prev (a :: c ++ [a]) := by
  refine path_append.mpr ⟨h.1, path_singleton a, ?_⟩
  intro p hp q hq
  exact h.2 p hp q hq

theorem Path.follows (h : Path next prev s) (hf : Follows s p q) : Linked next prev p q := by
  obtain ⟨u, v, rfl⟩ := hf
  exact (List.isChain_cons_cons.mp (path_append.mp h).2.1).1

/-- Backwards a path is one of the maps exchanged. -/
theorem Path.reverse (h : Path next prev s) : Path prev next s.reverse :=
  List.isChain_reverse.mpr (h.imp fun _ _ hl => ⟨hl.2, hl.1⟩)

/-- Two pairs of maps that hold a cycle agree on it. -/
theorem Cycle.unique (h : Cycle next prev c) (h' : Cycle next' prev' c) (hx : x ∈ c) :
    next x = next' x ∧ prev x = prev' x := by
  obtain ⟨s, t, rfl⟩ := List.append_of_mem hx
  have h₁ : Cycle next prev (x :: (t ++ s)) := h.rotate
  have h₂ : Cycle next' prev' (x :: (t ++ s)) := h'.rotate
  exact ⟨Option.some.inj (h₁.next_first.symm.trans h₂.next_first),
    Option.some.inj (h₁.prev_first.symm.trans h₂.prev_first)⟩

end Maps

-- ── The rules ────────────────────────────────────────────────────────────────

section Rules

variable {next prev next' prev' : α → α} {s t c : List α} {paths cycles : List (List α)} {x : α}

/-- The lists may be given in any order. -/
theorem Linkage.perm {paths' cycles' : List (List α)} (h : Linkage next prev paths cycles)
    (hp : paths.Perm paths') (hc : cycles.Perm cycles') : Linkage next prev paths' cycles' where
  nodup := ((hp.flatten.append hc.flatten).nodup_iff).mp h.nodup
  path := fun s hs => h.path s (hp.mem_iff.mpr hs)
  cycle := fun c hcc => h.cycle c (hc.mem_iff.mpr hcc)

/-- Only the nodes that are held matter. -/
theorem Linkage.agree (h : Linkage next prev paths cycles)
    (heq : ∀ x ∈ paths.flatten ++ cycles.flatten, next' x = next x ∧ prev' x = prev x) :
    Linkage next' prev' paths cycles where
  nodup := h.nodup
  path := fun s hs => (h.path s hs).agree fun x hx =>
    heq x (List.mem_append_left _ (List.mem_flatten.mpr ⟨s, hs, hx⟩))
  cycle := fun c hc => (h.cycle c hc).agree fun x hx =>
    heq x (List.mem_append_right _ (List.mem_flatten.mpr ⟨c, hc, hx⟩))

/-- A cycle may be cut open where it begins. -/
theorem Linkage.uncycle (h : Linkage next prev paths (c :: cycles)) :
    Linkage next prev (c :: paths) cycles where
  nodup := by
    refine (List.Perm.nodup_iff ?_).mp h.nodup
    simp only [List.flatten_cons, List.append_assoc]
    rw [← List.append_assoc, ← List.append_assoc]
    exact List.perm_append_comm.append_right _
  path := by
    intro s hs
    rcases List.mem_cons.mp hs with rfl | hs
    · exact (h.cycle s List.mem_cons_self).1
    · exact h.path s hs
  cycle := fun c' hc' => h.cycle c' (List.mem_cons_of_mem c hc')

/-- A path may be cut. -/
theorem Linkage.split (h : Linkage next prev ((s ++ t) :: paths) cycles) :
    Linkage next prev (s :: t :: paths) cycles where
  nodup := by simpa [List.append_assoc] using h.nodup
  path := by
    obtain ⟨hs, ht, -⟩ := path_append.mp (h.path (s ++ t) List.mem_cons_self)
    intro u hu
    simp only [List.mem_cons] at hu
    obtain rfl | rfl | hu := hu
    · exact hs
    · exact ht
    · exact h.path u (List.mem_cons_of_mem _ hu)
  cycle := h.cycle

/-- A path may be given up. -/
theorem Linkage.drop (h : Linkage next prev (s :: paths) cycles) :
    Linkage next prev paths cycles where
  nodup := by
    have hn := h.nodup
    rw [List.flatten_cons, List.append_assoc] at hn
    exact hn.of_append_right
  path := fun u hu => h.path u (List.mem_cons_of_mem s hu)
  cycle := h.cycle

/-- A node by itself is a path. -/
theorem Linkage.fresh (h : Linkage next prev paths cycles)
    (hx : x ∉ paths.flatten ++ cycles.flatten) : Linkage next prev ([x] :: paths) cycles where
  nodup := by
    rw [List.flatten_cons, List.append_assoc]
    exact List.nodup_cons.mpr ⟨hx, h.nodup⟩
  path := by
    intro u hu
    rcases List.mem_cons.mp hu with rfl | hu
    · exact path_singleton x
    · exact h.path u hu
  cycle := h.cycle

/-- A cycle begins anywhere. -/
theorem Linkage.rotate (h : Linkage next prev paths ((s ++ t) :: cycles)) :
    Linkage next prev paths ((t ++ s) :: cycles) where
  nodup := by
    refine (List.Perm.nodup_iff ?_).mp h.nodup
    simp only [List.flatten_cons]
    exact (List.perm_append_comm.append_right _).append_left _
  path := h.path
  cycle := by
    intro c hc
    rcases List.mem_cons.mp hc with rfl | hc
    · exact (h.cycle _ List.mem_cons_self).rotate
    · exact h.cycle c (List.mem_cons_of_mem _ hc)

/-- No cycle but the first holds a node of it. -/
theorem Linkage.not_mem_cycles (h : Linkage next prev paths (c :: cycles)) (hx : x ∈ c) :
    ∀ c' ∈ cycles, x ∉ c' := by
  have hn := (List.nodup_append.mp h.nodup).2.1
  rw [List.flatten_cons] at hn
  intro c' hc' hx'
  exact List.disjoint_of_nodup_append hn hx (List.mem_flatten.mpr ⟨c', hc', hx'⟩)

/-- Two pairs of maps that hold the same cycles agree on them. -/
theorem Linkage.unique (h : Linkage next prev paths cycles)
    {paths' : List (List α)} (h' : Linkage next' prev' paths' cycles) (hx : x ∈ cycles.flatten) :
    next x = next' x ∧ prev x = prev' x := by
  obtain ⟨c, hc, hxc⟩ := List.mem_flatten.mp hx
  exact (h.cycle c hc).unique (h'.cycle c hc) hxc

variable [DecidableEq α] {a b : α}

/-- One more link keeps a path that `a` may only end and `b` only begin. -/
theorem Path.link (h : Path next prev s) (hs : s.Nodup) (ha : a ∈ s → s.getLast? = some a)
    (hb : b ∈ s → s.head? = some b) :
    Path (Function.update next a b) (Function.update prev b a) s := by
  refine h.congr ?_ ?_
  · intro x hx
    refine Function.update_of_ne ?_ ..
    rintro rfl
    have hlast := ha (List.dropLast_subset s hx)
    obtain ⟨u, rfl⟩ := List.getLast?_eq_some_iff.mp hlast
    rw [List.dropLast_concat] at hx
    exact List.disjoint_of_nodup_append hs hx List.mem_cons_self
  · intro x hx
    refine Function.update_of_ne ?_ ..
    rintro rfl
    have hfirst := hb (List.mem_of_mem_tail hx)
    obtain ⟨u, rfl⟩ := List.head?_eq_some_iff.mp hfirst
    exact (List.nodup_cons.mp hs).1 hx

/-- A link keeps every list that does not hold its two nodes, unless they end
    and begin it. -/
theorem Linkage.link_others (h : Linkage next prev paths cycles)
    (hpaths : ∀ u ∈ paths, (a ∈ u → u.getLast? = some a) ∧ (b ∈ u → u.head? = some b))
    (hcycles : a ∉ cycles.flatten ∧ b ∉ cycles.flatten) :
    Linkage (Function.update next a b) (Function.update prev b a) paths cycles where
  nodup := h.nodup
  path := by
    intro u hu
    have hnu : u.Nodup := (List.nodup_flatten.mp h.nodup.of_append_left).1 u hu
    exact (h.path u hu).link hnu (hpaths u hu).1 (hpaths u hu).2
  cycle := by
    intro c hc
    refine (h.cycle c hc).agree ?_
    intro x hx
    have hmem : x ∈ cycles.flatten := List.mem_flatten.mpr ⟨c, hc, hx⟩
    have hxa : x ≠ a := by
      rintro rfl
      exact hcycles.1 hmem
    have hxb : x ≠ b := by
      rintro rfl
      exact hcycles.2 hmem
    exact ⟨Function.update_of_ne hxa .., Function.update_of_ne hxb ..⟩

/-- **JOIN**: linking the last node of a path to the first of another. -/
theorem Linkage.join (h : Linkage next prev (s :: t :: paths) cycles) (ha : s.getLast? = some a)
    (hb : t.head? = some b) :
    Linkage (Function.update next a b) (Function.update prev b a) ((s ++ t) :: paths) cycles := by
  have has : a ∈ s := List.mem_of_getLast? ha
  have hbt : b ∈ t := List.mem_of_mem_head? hb
  have hn := h.nodup
  simp only [List.flatten_cons, List.append_assoc] at hn
  have hst : s.Disjoint (t ++ (paths.flatten ++ cycles.flatten)) := List.disjoint_of_nodup_append hn
  have ht : t.Disjoint (paths.flatten ++ cycles.flatten) :=
    List.disjoint_of_nodup_append hn.of_append_right
  have hkept := h.link_others (a := a) (b := b) ?_ ?_
  · exact {
      nodup := by simpa [List.append_assoc] using hkept.nodup
      path := by
        intro u hu
        rcases List.mem_cons.mp hu with rfl | hu
        · refine path_append.mpr ⟨hkept.path s List.mem_cons_self,
            hkept.path t (List.mem_cons_of_mem s List.mem_cons_self), ?_⟩
          intro p hp q hq
          rw [ha] at hp
          rw [hb] at hq
          cases hp
          cases hq
          exact ⟨Function.update_self .., Function.update_self ..⟩
        · exact hkept.path u (List.mem_cons_of_mem s (List.mem_cons_of_mem t hu))
      cycle := hkept.cycle }
  · intro u hu
    simp only [List.mem_cons] at hu
    obtain rfl | rfl | hu := hu
    · exact ⟨fun _ => ha, fun hbu => absurd (List.mem_append_left _ hbt) (hst hbu)⟩
    · exact ⟨fun hau => absurd (List.mem_append_left _ hau) (hst has), fun _ => hb⟩
    · have hmem : ∀ x ∈ u, x ∈ paths.flatten ++ cycles.flatten := fun x hx =>
        List.mem_append_left _ (List.mem_flatten.mpr ⟨u, hu, hx⟩)
      exact ⟨fun hau => absurd (List.mem_append_right t (hmem a hau)) (hst has),
        fun hbu => absurd (hmem b hbu) (ht hbt)⟩
  · exact ⟨fun hac => hst has (List.mem_append_right t (List.mem_append_right _ hac)),
      fun hbc => ht hbt (List.mem_append_right _ hbc)⟩

/-- **CLOSE**: linking the last node of a path to its first. -/
theorem Linkage.close (h : Linkage next prev (s :: paths) cycles) (ha : s.getLast? = some a)
    (hb : s.head? = some b) :
    Linkage (Function.update next a b) (Function.update prev b a) paths (s :: cycles) := by
  have has : a ∈ s := List.mem_of_getLast? ha
  have hbs : b ∈ s := List.mem_of_mem_head? hb
  have hn := h.nodup
  simp only [List.flatten_cons, List.append_assoc] at hn
  have hs : s.Disjoint (paths.flatten ++ cycles.flatten) := List.disjoint_of_nodup_append hn
  have hkept := h.link_others (a := a) (b := b) ?_ ?_
  · exact {
      nodup := by
        refine (List.Perm.nodup_iff ?_).mp hkept.nodup
        simp only [List.flatten_cons]
        rw [← List.append_assoc]
        exact List.perm_append_comm.append_right _
      path := fun u hu => hkept.path u (List.mem_cons_of_mem s hu)
      cycle := by
        intro c hc
        rcases List.mem_cons.mp hc with rfl | hc
        · refine ⟨hkept.path c List.mem_cons_self, ?_⟩
          intro p hp q hq
          rw [ha] at hp
          rw [hb] at hq
          cases hp
          cases hq
          exact ⟨Function.update_self .., Function.update_self ..⟩
        · exact hkept.cycle c hc }
  · intro u hu
    rcases List.mem_cons.mp hu with rfl | hu
    · exact ⟨fun _ => ha, fun _ => hb⟩
    · have hmem : ∀ x ∈ u, x ∈ paths.flatten ++ cycles.flatten := fun x hx =>
        List.mem_append_left _ (List.mem_flatten.mpr ⟨u, hu, hx⟩)
      exact ⟨fun hau => absurd (hmem a hau) (hs has), fun hbu => absurd (hmem b hbu) (hs hbs)⟩
  · exact ⟨fun hac => hs has (List.mem_append_right _ hac),
      fun hbc => hs hbs (List.mem_append_right _ hbc)⟩

end Rules

end LinkCycle
