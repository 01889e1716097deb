import TreasureHouse.HlistProofs
import TreasureHouse.ListSpecProofs

/-! # `container/list.h` — runs over the lists with a single pointer head

    What the calls are for is said without pointers: every head has its nodes in
    order, and a node is on the list of a head, or idle (initialised and on no
    list), or neither (`hlistSpec`).  A call that the nodes allow never goes
    through a null pointer or a poison, and the pointers stay those of the lists
    (`hlist_ops_refine`). -/

namespace Hlist

open LabelledRun ListHead

variable {η α : Type}

-- ── What the calls are for ───────────────────────────────────────────────────

/-- Where a node is. -/
inductive Place (η : Type) where
  | on (h : η)
  | idle
  | elsewhere
  deriving DecidableEq

/-- The nodes of every initialised head, and where every node is. -/
structure Contents (η α : Type) where
  lists : η → Option (List α)
  place : α → Place η

/-- The calls. -/
inductive Call (η α : Type) where
  | initHlistHead (h : η)
  | initHlistNode (n : α)
  | hlistAddHead (n : α) (h : η)
  | hlistAddBefore (n next : α)
  | hlistAddBehind (n prev : α)
  | hlistDel (n : α)
  | hlistDelInit (n : α)
  | hlistMoveList (old new : η)

/-- On no list. -/
def Off (g : Contents η α) (n : α) : Prop := ∀ h, g.place n ≠ .on h

/-- The list that `a` is on, if it is on one. -/
def onList (g : Contents η α) (a : α) : Option (η × List α) :=
  match g.place a with
  | .on h => (g.lists h).map fun l => (h, l)
  | _ => none

/-- A node on no list. -/
def isOff (g : Contents η α) (n : α) : Bool :=
  match g.place n with
  | .on _ => false
  | _ => true

-- ── The pointers hold the lists ──────────────────────────────────────────────

/-- The pointers are those of the lists. -/
structure Holds (s : Hlists η α) (g : Contents η α) : Prop where
  chain : ∀ h l, g.lists h = some l → Chain s (.first h) l ∧ l.Nodup
  placed : ∀ n h, g.place n = .on h ↔ ∃ l, g.lists h = some l ∧ n ∈ l
  idle : ∀ n, g.place n = .idle → s.pprev n = .null

section Held

variable {s : Hlists η α} {g : Contents η α} {h : η} {n a : α} {l : List α}

theorem Holds.place_of_mem (hs : Holds s g) (hl : g.lists h = some l) (ha : a ∈ l) :
    g.place a = .on h :=
  (hs.placed a h).mpr ⟨l, hl, ha⟩

theorem Holds.mem_of_place (hs : Holds s g) (hl : g.lists h = some l) (ha : g.place a = .on h) :
    a ∈ l := by
  obtain ⟨m, hm, ham⟩ := (hs.placed a h).mp ha
  rw [hl] at hm
  cases hm
  exact ham

theorem off_of_isOff (hoff : isOff g n = true) : Off g n := by
  intro h heq
  rw [isOff, heq] at hoff
  exact Bool.false_ne_true hoff

theorem onList_eq (ho : onList g a = some (h, l)) : g.place a = .on h ∧ g.lists h = some l := by
  rw [onList] at ho
  cases hp : g.place a with
  | on k =>
      rw [hp] at ho
      obtain ⟨m, hm, heq⟩ := Option.map_eq_some_iff.mp ho
      cases heq
      exact ⟨rfl, hm⟩
  | idle =>
      rw [hp] at ho
      cases ho
  | elsewhere =>
      rw [hp] at ho
      cases ho

end Held

variable [DecidableEq η] [DecidableEq α]

/-- A head gets these nodes, and `n` a place. -/
def Contents.put (g : Contents η α) (h : η) (l : List α) (n : α) (p : Place η) : Contents η α :=
  { lists := Function.update g.lists h (some l), place := Function.update g.place n p }

theorem put_lists (g : Contents η α) (h : η) (l : List α) (n : α) (p : Place η) :
    (g.put h l n p).lists = Function.update g.lists h (some l) := rfl

theorem put_place (g : Contents η α) (h : η) (l : List α) (n : α) (p : Place η) :
    (g.put h l n p).place = Function.update g.place n p := rfl

/-- What a call is for.  A node is put on a list only if it is on none, next to
    one that is on a list, and taken off only if it is on one; `hlist_del_init`
    takes an idle node as well. -/
def hlistSpec (g : Contents η α) : Call η α → Option (Contents η α)
  | .initHlistHead h =>
      if g.lists h = none then some { g with lists := Function.update g.lists h (some []) }
      else none
  | .initHlistNode n =>
      if isOff g n then some { g with place := Function.update g.place n .idle } else none
  | .hlistAddHead n h => do
      let l ← g.lists h
      if isOff g n then some (g.put h (n :: l) n (.on h)) else none
  | .hlistAddBefore n next => do
      let (h, l) ← onList g next
      if isOff g n then
        some (g.put h (before next l ++ n :: next :: behind next l) n (.on h))
      else none
  | .hlistAddBehind n prev => do
      let (h, l) ← onList g prev
      if isOff g n then
        some (g.put h (before prev l ++ prev :: n :: behind prev l) n (.on h))
      else none
  | .hlistDel n => do
      let (h, l) ← onList g n
      some (g.put h (before n l ++ behind n l) n .elsewhere)
  | .hlistDelInit n =>
      if g.place n = .idle then some g
      else do
        let (h, l) ← onList g n
        some (g.put h (before n l ++ behind n l) n .idle)
  | .hlistMoveList old new => do
      let l ← g.lists old
      if old ≠ new then
        some
          { lists := Function.update (Function.update g.lists new (some l)) old (some [])
            place := fun n =>
              if g.place n = .on new then .elsewhere
              else if g.place n = .on old then .on new
              else g.place n }
      else none

/-- The call as it is made, on the pointers. -/
def hlistApply (s : Hlists η α) : Call η α → Option (Hlists η α)
  | .initHlistHead h => some (initHlistHead s h)
  | .initHlistNode n => some (initHlistNode s n)
  | .hlistAddHead n h => hlistAddHead s n h
  | .hlistAddBefore n next => hlistAddBefore s n next
  | .hlistAddBehind n prev => hlistAddBehind s n prev
  | .hlistDel n => hlistDel s n
  | .hlistDelInit n => hlistDelInit s n
  | .hlistMoveList old new => hlistMoveList s old new

-- ── One head, one node ───────────────────────────────────────────────────────

section Held

variable {s s' : Hlists η α} {g g' : Contents η α} {h : η} {n a : α} {l l' : List α} {p : Place η}

/-- One head has other nodes, and one node another place. -/
theorem Holds.put (hs : Holds s g) (hl : g.lists h = some l) (hc : Chain s' (.first h) l')
    (hnd : l'.Nodup) (hf : Frame s s' [h] (n :: l)) (hn : ∀ k, k ≠ h → g.place n ≠ .on k)
    (hmem : ∀ a, a ≠ n → (a ∈ l' ↔ a ∈ l)) (hp : ∀ k, p = .on k ↔ k = h ∧ n ∈ l')
    (hidle : p = .idle → s'.pprev n = .null) : Holds s' (g.put h l' n p) where
  chain := by
    intro k m hm
    rw [put_lists] at hm
    by_cases hk : k = h
    · subst hk
      rw [Function.update_self] at hm
      cases hm
      exact ⟨hc, hnd⟩
    · rw [Function.update_of_ne hk] at hm
      obtain ⟨hcm, hndm⟩ := hs.chain k m hm
      refine ⟨hcm.frame hf (fun hkh => hk (List.mem_singleton.mp hkh)) ?_, hndm⟩
      intro a ha hanl
      have hak := hs.place_of_mem hm ha
      obtain rfl | hal := List.mem_cons.mp hanl
      · exact hn k hk hak
      · rw [hs.place_of_mem hl hal] at hak
        cases hak
        exact hk rfl
  placed := by
    intro a k
    rw [put_lists, put_place]
    by_cases han : a = n
    · subst han
      rw [Function.update_self, hp k]
      by_cases hk : k = h
      · subst hk
        simp
      · refine iff_of_false (fun heq => hk heq.1) ?_
        rintro ⟨m, hm, ham⟩
        rw [Function.update_of_ne hk] at hm
        exact hn k hk (hs.place_of_mem hm ham)
    · rw [Function.update_of_ne han]
      by_cases hk : k = h
      · subst hk
        rw [Function.update_self]
        refine ⟨fun hak => ⟨l', rfl, (hmem a han).mpr (hs.mem_of_place hl hak)⟩, ?_⟩
        rintro ⟨m, hm, ham⟩
        cases hm
        exact hs.place_of_mem hl ((hmem a han).mp ham)
      · rw [Function.update_of_ne hk]
        exact hs.placed a k
  idle := by
    intro a ha
    rw [put_place] at ha
    by_cases han : a = n
    · subst han
      rw [Function.update_self] at ha
      exact hidle ha
    · rw [Function.update_of_ne han] at ha
      rw [hf.pprev a ?_]
      · exact hs.idle a ha
      · intro hanl
        rw [hs.place_of_mem hl ((List.mem_cons.mp hanl).resolve_left han)] at ha
        cases ha

/-- A node comes on the list of a head. -/
theorem Holds.add (hs : Holds s g) (hl : g.lists h = some l) (hoff : Off g n)
    (hc : Chain s' (.first h) l') (hp : l'.Perm (n :: l)) (hf : Frame s s' [h] (n :: l)) :
    Holds s' (g.put h l' n (.on h)) := by
  have hnl : n ∉ l := fun hnl => hoff h (hs.place_of_mem hl hnl)
  refine hs.put hl hc ?_ hf (fun k _ => hoff k) ?_ ?_ fun heq => nomatch heq
  · exact hp.nodup_iff.mpr (List.nodup_cons.mpr ⟨hnl, (hs.chain h l hl).2⟩)
  · intro a ha
    rw [hp.mem_iff, List.mem_cons, or_iff_right ha]
  · intro k
    rw [Place.on.injEq, and_iff_left (hp.mem_iff.mpr List.mem_cons_self)]
    exact eq_comm

/-- A node leaves the list of a head. -/
theorem Holds.take (hs : Holds s g) (hl : g.lists h = some l) (hc : Chain s' (.first h) l')
    (hp : l.Perm (n :: l')) (hf : Frame s s' [h] l) (hplace : ∀ k, p ≠ .on k)
    (hidle : p = .idle → s'.pprev n = .null) : Holds s' (g.put h l' n p) := by
  have hnl : n ∈ l := hp.mem_iff.mpr List.mem_cons_self
  obtain ⟨hnl', hnd⟩ := List.nodup_cons.mp (hp.nodup_iff.mp (hs.chain h l hl).2)
  refine hs.put hl hc hnd ?_ ?_ ?_ ?_ hidle
  · exact {
      first := hf.first
      next := fun a ha => hf.next a fun hal => ha (List.mem_cons_of_mem n hal)
      pprev := fun a ha => hf.pprev a fun hal => ha (List.mem_cons_of_mem n hal) }
  · intro k hk hnk
    rw [hs.place_of_mem hl hnl] at hnk
    cases hnk
    exact hk rfl
  · intro a ha
    rw [hp.mem_iff, List.mem_cons, or_iff_right ha]
  · exact fun k => iff_of_false (hplace k) fun h => hnl' h.2

-- ── One call ─────────────────────────────────────────────────────────────────

/-- A head gets its first, empty list. -/
theorem Holds.initHead (hs : Holds s g) (hnone : g.lists h = none) :
    Holds (initHlistHead s h) { g with lists := Function.update g.lists h (some []) } where
  chain := by
    intro k m hm
    dsimp only at hm
    by_cases hk : k = h
    · subst hk
      rw [Function.update_self] at hm
      cases hm
      exact ⟨load_store_self (p := .first k), List.nodup_nil⟩
    · rw [Function.update_of_ne hk] at hm
      obtain ⟨hc, hnd⟩ := hs.chain k m hm
      refine ⟨hc.congr (load_store_of_ne ?_) (fun _ _ => rfl) fun _ _ => rfl, hnd⟩
      rintro ⟨⟩
      exact hk rfl
  placed := by
    intro a k
    dsimp only
    rw [hs.placed a k]
    by_cases hk : k = h
    · subst hk
      rw [hnone, Function.update_self]
      simp
    · rw [Function.update_of_ne hk]
  idle := hs.idle

/-- A node on no list is initialised. -/
theorem Holds.initNode (hs : Holds s g) (hoff : Off g n) :
    Holds (initHlistNode s n) { g with place := Function.update g.place n .idle } where
  chain := by
    intro k m hm
    obtain ⟨hc, hnd⟩ := hs.chain k m hm
    refine ⟨hc.frame (setPprev_store_frame s n .null .null) List.not_mem_nil ?_, hnd⟩
    intro a ha han
    rw [List.mem_singleton.mp han] at ha
    exact hoff k (hs.place_of_mem hm ha)
  placed := by
    intro a k
    dsimp only
    rw [← hs.placed a k]
    by_cases han : a = n
    · subst han
      rw [Function.update_self]
      exact iff_of_false (fun heq => nomatch heq) (hoff k)
    · rw [Function.update_of_ne han]
  idle := by
    intro a ha
    dsimp only at ha
    by_cases han : a = n
    · subst han
      exact Function.update_self ..
    · rw [Function.update_of_ne han] at ha
      exact (Function.update_of_ne han ..).trans (hs.idle a ha)

/-- One head takes over the list of another. -/
theorem Holds.moveList {k : η} (hs : Holds s g) (hl : g.lists h = some l) (hhk : h ≠ k) :
    ∃ s', hlistMoveList s h k = some s' ∧ Holds s'
      { lists := Function.update (Function.update g.lists k (some l)) h (some [])
        place := fun n =>
          if g.place n = .on k then .elsewhere
          else if g.place n = .on h then .on k
          else g.place n } := by
  obtain ⟨hc, hnd⟩ := hs.chain h l hl
  obtain ⟨s', hs', hck, hch, hf⟩ := hlistMoveList_chain hc hhk hnd
  refine ⟨s', hs', { chain := ?_, placed := ?_, idle := ?_ }⟩
  · intro j m hm
    dsimp only at hm
    by_cases hjh : j = h
    · subst hjh
      rw [Function.update_self] at hm
      cases hm
      exact ⟨hch, List.nodup_nil⟩
    rw [Function.update_of_ne hjh] at hm
    by_cases hjk : j = k
    · subst hjk
      rw [Function.update_self] at hm
      cases hm
      exact ⟨hck, hnd⟩
    rw [Function.update_of_ne hjk] at hm
    obtain ⟨hcm, hndm⟩ := hs.chain j m hm
    refine ⟨hcm.frame hf ?_ ?_, hndm⟩
    · simp [hjh, hjk]
    · intro a ham hal
      have hah := hs.place_of_mem hl hal
      rw [hs.place_of_mem hm ham] at hah
      cases hah
      exact hjh rfl
  · intro a j
    dsimp only
    by_cases hjh : j = h
    · subst hjh
      rw [Function.update_self]
      refine iff_of_false ?_ ?_
      · split
        · exact fun heq => nomatch heq
        · split
          · rintro ⟨⟩
            exact hhk rfl
          · assumption
      · rintro ⟨m, hm, ham⟩
        cases hm
        exact List.not_mem_nil ham
    rw [Function.update_of_ne hjh]
    by_cases hjk : j = k
    · subst hjk
      rw [Function.update_self]
      refine Iff.trans ?_ (b := g.place a = .on h) ?_
      · split
        · rename_i hak
          refine iff_of_false (fun heq => nomatch heq) ?_
          rw [hak]
          rintro ⟨⟩
          exact hhk rfl
        · split
          · exact iff_of_true rfl ‹_›
          · exact iff_of_false ‹_› ‹_›
      · refine ⟨fun hah => ⟨l, rfl, hs.mem_of_place hl hah⟩, ?_⟩
        rintro ⟨m, hm, ham⟩
        cases hm
        exact hs.place_of_mem hl ham
    · rw [Function.update_of_ne hjk, ← hs.placed a j]
      split
      · rename_i hak
        rw [hak]
        refine iff_of_false (fun heq => nomatch heq) ?_
        rintro ⟨⟩
        exact hjk rfl
      · split
        · rename_i hah
          rw [hah]
          refine iff_of_false ?_ ?_
          · rintro ⟨⟩
            exact hjk rfl
          · rintro ⟨⟩
            exact hjh rfl
        · exact Iff.rfl
  · intro a ha
    dsimp only at ha
    split at ha
    · cases ha
    · split at ha
      · cases ha
      · rw [hf.pprev a ?_]
        · exact hs.idle a ha
        · intro hal
          rw [hs.place_of_mem hl hal] at ha
          cases ha

omit [DecidableEq η] in
/-- The neighbours of a node on a list. -/
theorem Holds.around (hs : Holds s g) (ho : onList g a = some (h, l)) :
    g.lists h = some l ∧ before a l ++ a :: behind a l = l := by
  obtain ⟨hplace, hl⟩ := onList_eq ho
  exact ⟨hl, before_behind (hs.mem_of_place hl hplace)⟩

/-- A node leaves its list, and its own pointers are set to something. -/
theorem Holds.unlink (hs : Holds s g) (ho : onList g n = some (h, l)) (v : NodePtr α)
    (w : SlotPtr η α) (hplace : ∀ k, p ≠ .on k) (hidle : p = .idle → w = .null) :
    ∃ s', (hlistUnlink s n).map (fun s => setPprev (store s (.next n) v) n w) = some s'
      ∧ Holds s' (g.put h (before n l ++ behind n l) n p) := by
  obtain ⟨hl, hsplit⟩ := hs.around ho
  obtain ⟨hc, hnd⟩ := hs.chain h l hl
  rw [← hsplit] at hc hnd
  obtain ⟨s', hs', hc', hf, hw⟩ := unlink_chain hc hnd v w
  rw [hsplit] at hf
  refine ⟨s', hs', hs.take hl hc' ?_ hf hplace fun hp => hw.trans (hidle hp)⟩
  exact (List.Perm.of_eq hsplit.symm).trans List.perm_middle

/-- **ONE CALL** that the nodes allow goes through no null pointer and no poison,
    and leaves the pointers of the lists. -/
theorem hlistApply_holds {call : Call η α} (hs : Holds s g) (hspec : hlistSpec g call = some g') :
    ∃ s', hlistApply s call = some s' ∧ Holds s' g' := by
  cases call with
  | initHlistHead h =>
      rw [hlistSpec, Option.ite_none_right_eq_some] at hspec
      obtain ⟨hnone, heq⟩ := hspec
      cases heq
      exact ⟨_, rfl, hs.initHead hnone⟩
  | initHlistNode n =>
      rw [hlistSpec, Option.ite_none_right_eq_some] at hspec
      obtain ⟨hoff, heq⟩ := hspec
      cases heq
      exact ⟨_, rfl, hs.initNode (off_of_isOff hoff)⟩
  | hlistAddHead n h =>
      obtain ⟨l, hl, hG⟩ := Option.bind_eq_some_iff.mp hspec
      rw [Option.ite_none_right_eq_some] at hG
      obtain ⟨hoff, heq⟩ := hG
      cases heq
      obtain ⟨hc, hnd⟩ := hs.chain h l hl
      have hnl : n ∉ l := fun hnl => off_of_isOff hoff h (hs.place_of_mem hl hnl)
      obtain ⟨s', hs', hc', hf⟩ := hlistAddHead_chain hc (List.nodup_cons.mpr ⟨hnl, hnd⟩)
      exact ⟨s', hs', hs.add hl (off_of_isOff hoff) hc' (List.Perm.refl _) hf⟩
  | hlistAddBefore n next =>
      obtain ⟨⟨h, l⟩, ho, hG⟩ := Option.bind_eq_some_iff.mp hspec
      dsimp only at hG
      rw [Option.ite_none_right_eq_some] at hG
      obtain ⟨hoff, heq⟩ := hG
      cases heq
      obtain ⟨hl, hsplit⟩ := hs.around ho
      obtain ⟨hc, hnd⟩ := hs.chain h l hl
      have hnl : n ∉ l := fun hnl => off_of_isOff hoff h (hs.place_of_mem hl hnl)
      have hnd' := List.nodup_cons.mpr ⟨hnl, hnd⟩
      rw [← hsplit] at hc hnd'
      obtain ⟨s', hs', hc', hf⟩ := hlistAddBefore_chain hc hnd'
      rw [hsplit] at hf
      refine ⟨s', hs', hs.add hl (off_of_isOff hoff) hc' ?_ hf⟩
      exact List.perm_middle.trans ((List.Perm.of_eq hsplit).cons n)
  | hlistAddBehind n prev =>
      obtain ⟨⟨h, l⟩, ho, hG⟩ := Option.bind_eq_some_iff.mp hspec
      dsimp only at hG
      rw [Option.ite_none_right_eq_some] at hG
      obtain ⟨hoff, heq⟩ := hG
      cases heq
      obtain ⟨hl, hsplit⟩ := hs.around ho
      obtain ⟨hc, hnd⟩ := hs.chain h l hl
      have hnl : n ∉ l := fun hnl => off_of_isOff hoff h (hs.place_of_mem hl hnl)
      have hnd' := List.nodup_cons.mpr ⟨hnl, hnd⟩
      rw [← hsplit] at hc hnd'
      obtain ⟨s', hs', hc', hf⟩ := hlistAddBehind_chain hc hnd'
      rw [hsplit] at hf
      refine ⟨s', hs', hs.add hl (off_of_isOff hoff) hc' ?_ hf⟩
      have hswap : (before prev l ++ prev :: n :: behind prev l).Perm
          (before prev l ++ n :: prev :: behind prev l) := (List.Perm.swap ..).append_left _
      exact hswap.trans (List.perm_middle.trans ((List.Perm.of_eq hsplit).cons n))
  | hlistDel n =>
      obtain ⟨⟨h, l⟩, ho, hG⟩ := Option.bind_eq_some_iff.mp hspec
      cases hG
      exact hs.unlink ho .listPoison1 .listPoison2 (fun _ heq => nomatch heq) fun heq => nomatch heq
  | hlistDelInit n =>
      rw [hlistSpec] at hspec
      by_cases hidle : g.place n = .idle
      · rw [if_pos hidle] at hspec
        cases hspec
        refine ⟨s, ?_, hs⟩
        rw [hlistApply, hlistDelInit, hlistUnhashed, decide_eq_true (hs.idle n hidle)]
        rfl
      · rw [if_neg hidle] at hspec
        obtain ⟨⟨h, l⟩, ho, hG⟩ := Option.bind_eq_some_iff.mp hspec
        cases hG
        obtain ⟨hl, hsplit⟩ := hs.around ho
        have hhashed : s.pprev n ≠ .null := by
          have hc := (hs.chain h l hl).1
          rw [← hsplit] at hc
          rw [(chain_append.mp hc).2.2.1]
          exact fun heq => nomatch heq
        rw [hlistApply, hlistDelInit, hlistUnhashed, decide_eq_false hhashed]
        exact hs.unlink ho .null .null (fun _ heq => nomatch heq) fun _ => rfl
  | hlistMoveList old new =>
      obtain ⟨l, hl, hG⟩ := Option.bind_eq_some_iff.mp hspec
      rw [Option.ite_none_right_eq_some] at hG
      obtain ⟨hne, heq⟩ := hG
      cases heq
      exact hs.moveList hl hne

end Held

-- ── Runs ─────────────────────────────────────────────────────────────────────

/-- The pointers, and the lists they should hold. -/
structure Lists (η α : Type) where
  links : Hlists η α
  contents : Contents η α

/-- One call. -/
def hlistStep (s : Lists η α) (call : Call η α) : Option (Lists η α) := do
  let contents ← hlistSpec s.contents call
  let links ← hlistApply s.links call
  some { links := links, contents := contents }

/-- No head and no node yet. -/
def Blank (s : Lists η α) : Prop :=
  (∀ h, s.contents.lists h = none) ∧ ∀ n, s.contents.place n = .elsewhere

section Runs

variable {s : Hlists η α} {g : Contents η α} {h k : η} {n : α} {l : List α}

omit [DecidableEq η] [DecidableEq α] in
/-- Going along a chain meets its nodes. -/
theorem Chain.for_each {p : Slot η α} (hc : Chain s p l) :
    ∀ k, l.length < k → hlistForEach s k (load s p) = some l := by
  induction l generalizing p with
  | nil =>
      intro k hk
      obtain ⟨k, rfl⟩ := Nat.exists_eq_succ_of_ne_zero (Nat.ne_of_gt hk)
      rw [hc.load_eq]
      rfl
  | cons a l ih =>
      intro k hk
      obtain ⟨k, rfl⟩ := Nat.exists_eq_succ_of_ne_zero (Nat.ne_of_gt (Nat.zero_lt_of_lt hk))
      rw [hc.1, hlistForEach, show s.next a = load s (.next a) from rfl,
        ih hc.2.2 k (Nat.lt_of_succ_lt_succ hk), Option.map_some]

omit [DecidableEq η] [DecidableEq α] in
theorem Holds.split (hs : Holds s g) (hn : g.place n = .on h) :
    ∃ l₁ l₂, g.lists h = some (l₁ ++ n :: l₂) ∧ Chain s (.first h) (l₁ ++ n :: l₂)
      ∧ (l₁ ++ n :: l₂).Nodup := by
  obtain ⟨l, hl, hnl⟩ := (hs.placed n h).mp hn
  obtain ⟨l₁, l₂, rfl⟩ := List.append_of_mem hnl
  exact ⟨l₁, l₂, hl, hs.chain h _ hl⟩

theorem hlistIsSingularNode_eq (hs : Holds s g) (hn : g.place n = .on k) :
    hlistIsSingularNode s n h = decide (g.lists h = some [n]) := by
  obtain ⟨l₁, l₂, hl, hc, -⟩ := hs.split hn
  obtain ⟨-, -, hback, hrest⟩ := chain_append.mp hc
  rw [hlistIsSingularNode, hback, show s.next n = headPtr l₂ from hrest.load_eq, Bool.eq_iff_iff]
  simp only [Bool.and_eq_true, decide_eq_true_eq, SlotPtr.addr.injEq]
  constructor
  · rintro ⟨hl₂, hl₁⟩
    have hnil : l₁ = [] := by
      obtain ⟨hnil, -⟩ | ⟨a, -, heq⟩ := slotAfter_cases (p := (.first k : Slot η α)) (l := l₁)
      · exact hnil
      · rw [heq] at hl₁
        cases hl₁
    subst hnil
    cases hl₁
    cases l₂ with
    | nil => exact hl
    | cons b l₂ => cases hl₂
  · intro hone
    have hk : g.place n = .on h := hs.place_of_mem hone List.mem_cons_self
    rw [hn] at hk
    cases hk
    rw [hl] at hone
    have hlen := congrArg List.length (Option.some.inj hone)
    rw [List.length_append, List.length_cons, List.length_singleton] at hlen
    obtain rfl : l₁ = [] := List.length_eq_zero_iff.mp (by omega)
    obtain rfl : l₂ = [] := List.length_eq_zero_iff.mp (by omega)
    exact ⟨rfl, rfl⟩

/-- The pointers show the lists, those back to the slot in front of each node
    included, and no call that the nodes allow fails. -/
structure Faithful (s : Lists η α) : Prop where
  forEach : ∀ h l, s.contents.lists h = some l →
    ∀ k, l.length < k → hlistForEach s.links k (s.links.first h) = some l
  pprev : ∀ h l₁ n l₂, s.contents.lists h = some (l₁ ++ n :: l₂) →
    s.links.pprev n = .addr (slotAfter (.first h) l₁)
      ∧ load s.links (slotAfter (.first h) l₁) = .node n
  empty : ∀ h l, s.contents.lists h = some l → hlistEmpty s.links h = decide (l = [])
  singular : ∀ n k h, s.contents.place n = .on k →
    hlistIsSingularNode s.links n h = decide (s.contents.lists h = some [n])
  hashed : ∀ n h, s.contents.place n = .on h → hlistUnhashed s.links n = false
  unhashed : ∀ n, s.contents.place n = .idle → hlistUnhashed s.links n = true
  once : ∀ h k l m n, s.contents.lists h = some l → s.contents.lists k = some m →
    n ∈ l → n ∈ m → h = k ∧ l.Nodup
  allowed : ∀ call, (hlistSpec s.contents call).isSome → (hlistStep s call).isSome
  idleDel : ∀ n, s.contents.place n = .idle → hlistDel s.links n = none

theorem Run.holds : ∀ s : Lists η α, Reach Blank (fires hlistStep) s →
    Holds s.links s.contents := by
  refine Reach.invariant ?_ ?_
  · rintro s ⟨hlists, hplace⟩
    exact {
      chain := by
        intro h l hl
        rw [hlists h] at hl
        cases hl
      placed := by
        intro n h
        rw [hplace n, hlists h]
        simp
      idle := by
        intro n hn
        rw [hplace n] at hn
        cases hn }
  · intro s call s' _ hs hstep
    obtain ⟨g, hspec, hstep'⟩ := Option.bind_eq_some_iff.mp hstep
    obtain ⟨t, happly, hG⟩ := Option.bind_eq_some_iff.mp hstep'
    cases hG
    obtain ⟨t', happly', ht⟩ := hlistApply_holds hs hspec
    rw [happly] at happly'
    cases happly'
    exact ht

/-- **REFINEMENT**: after any run of calls the pointers show, for every head, the
    nodes that the calls are for, and a call that the nodes allow never goes
    through a null pointer or a poison. -/
theorem hlist_ops_refine {s : Lists η α} (hr : Reach Blank (fires hlistStep) s) : Faithful s := by
  have hs := Run.holds s hr
  exact {
    forEach := fun h l hl => (hs.chain h l hl).1.for_each
    pprev := by
      intro h l₁ n l₂ hl
      obtain ⟨-, hload, hback, -⟩ := chain_append.mp (hs.chain h _ hl).1
      exact ⟨hback, hload⟩
    empty := by
      intro h l hl
      refine decide_eq_decide.mpr ?_
      rw [show s.links.first h = headPtr l from (hs.chain h l hl).1.load_eq]
      cases l with
      | nil => exact iff_of_true rfl rfl
      | cons a l => exact iff_of_false (fun heq => nomatch heq) (List.cons_ne_nil a l)
    singular := fun n k h hn => hlistIsSingularNode_eq hs hn
    hashed := by
      intro n h hn
      obtain ⟨l₁, l₂, -, hc, -⟩ := hs.split hn
      rw [hlistUnhashed, (chain_append.mp hc).2.2.1]
      rfl
    unhashed := fun n hn => decide_eq_true (hs.idle n hn)
    once := by
      intro h k l m n hl hm hnl hnm
      have hn := hs.place_of_mem hl hnl
      rw [hs.place_of_mem hm hnm] at hn
      cases hn
      exact ⟨rfl, (hs.chain h l hl).2⟩
    allowed := by
      intro call hcall
      obtain ⟨g, hspec⟩ := Option.isSome_iff_exists.mp hcall
      obtain ⟨t, happly, -⟩ := hlistApply_holds hs hspec
      rw [hlistStep, hspec, Option.bind_eq_bind, Option.bind_some, happly]
      rfl
    idleDel := by
      intro n hn
      rw [hlistDel, hlistUnlink, hs.idle n hn]
      rfl }

/-- Three nodes come on two lists, one leaves, a list moves. -/
theorem hlist_ops_refine_run :
    ∃ s : Lists Bool Nat, Faithful s ∧ s.contents.lists true = some [3, 1] := by
  have hstart : Reach Blank (fires hlistStep)
      ({ links := { first := fun _ => .null, next := fun _ => .null, pprev := fun _ => .null }
         contents := { lists := fun _ => none, place := fun _ => .elsewhere } } :
        Lists Bool Nat) := Reach.start ⟨fun _ => rfl, fun _ => rfl⟩
  obtain ⟨s, hs, htest⟩ := Reach.exists_of_runList
    ([.initHlistHead false, .initHlistHead true, .initHlistNode 1, .hlistAddHead 1 false,
      .hlistAddBehind 2 1, .hlistAddBefore 3 2, .hlistDelInit 1, .hlistDelInit 1,
      .hlistMoveList false true, .hlistDel 2, .hlistAddBehind 1 3] : List (Call Bool Nat))
    (fun s : Lists Bool Nat => decide (s.contents.lists true = some [3, 1])) hstart
    (by decide +kernel)
  exact ⟨s, hlist_ops_refine hs, of_decide_eq_true htest⟩

end Runs

end Hlist
