import Mathlib.Data.List.Basic
import Mathlib.Data.List.Infix

/-!
# Binary tries in an array

A binary trie kept as a list of nodes that name their children by index, node 0 being the root.
`insert` walks down a path, adding the nodes that are missing, and marks the last one with a symbol.

What a trie means is said by paths, not by indices: `walk t p` is the node at path `p`, and
`get t p` its symbol.

* `WF`: children lie behind their parents and no node has two parents, so different paths lead to
  different nodes (`WF.walk_injective`);
* `WF.walk_addChild`: adding a child changes the node of one path only;
* `insert_spec`: **`insert` is the update of a map from paths to symbols**, and the paths of the
  trie are the old ones and the prefixes of the new one;
* `build_spec`: a trie built from a table has the prefixes of its paths, and its symbols where the
  paths are different.

A reader of the trie goes down bit by bit and starts again at the root behind each symbol
(`step`, `run`). For a prefix-free table `run_code` and `run_path` say what it reads, and
`PrefixFree.run_eq_some_iff` what it has read: whole paths, and a proper prefix of one. Its symbols
are at the leaves (`PrefixFree.leaf`).
-/

namespace Uproxy.Lib.Trie

variable {σ : Type}

/-- A node: two children and a symbol, each possibly absent. -/
structure Node (σ : Type) where
  left  : Option Nat := none
  right : Option Nat := none
  sym   : Option σ := none
  deriving DecidableEq, Repr

abbrev Tree (σ : Type) := List (Node σ)

def Node.child (n : Node σ) (bit : Bool) : Option Nat := if bit then n.right else n.left

def Node.setChild (n : Node σ) (bit : Bool) (c : Nat) : Node σ :=
  if bit then { n with right := some c } else { n with left := some c }

def child (t : Tree σ) (i : Nat) (bit : Bool) : Option Nat := t[i]?.bind (·.child bit)

def symAt (t : Tree σ) (i : Nat) : Option σ := t[i]?.bind Node.sym

/-- Add a new node at the end and make it a child. -/
def addChild (t : Tree σ) (i : Nat) (bit : Bool) : Tree σ :=
  t.modify i (·.setChild bit t.length) ++ [({} : Node σ)]

/-- Go to a child, adding it if it is missing. -/
def grow (t : Tree σ) (i : Nat) (bit : Bool) : Tree σ × Nat :=
  match child t i bit with
  | some c => (t, c)
  | none => (addChild t i bit, t.length)

/-- Go down a path, adding what is missing. -/
def growPath (t : Tree σ) (i : Nat) : List Bool → Tree σ × Nat
  | [] => (t, i)
  | bit :: p => growPath (grow t i bit).1 (grow t i bit).2 p

def insert (t : Tree σ) (p : List Bool) (v : σ) : Tree σ :=
  (growPath t 0 p).1.modify (growPath t 0 p).2 fun n => { n with sym := some v }

/-- The trie of a table, entries inserted in order. -/
def build (table : List (List Bool × σ)) : Tree σ := table.foldl (fun t e => insert t e.1 e.2) [{}]

/-! ## Paths -/

/-- The node at a path. -/
def walk (t : Tree σ) (p : List Bool) : Option Nat := p.foldlM (child t) 0

/-- The symbol at a path. -/
def get (t : Tree σ) (p : List Bool) : Option σ := (walk t p).bind (symAt t)

theorem walk_nil (t : Tree σ) : walk t [] = some 0 := rfl

theorem walk_concat (t : Tree σ) (p : List Bool) (bit : Bool) :
    walk t (p ++ [bit]) = (walk t p).bind fun i => child t i bit := by
  unfold walk
  rw [List.foldlM_append]
  simp

structure WF (t : Tree σ) : Prop where
  pos    : 0 < t.length
  range  : ∀ {i bit c}, child t i bit = some c → i < c ∧ c < t.length
  parent : ∀ {i j bit bit' c}, child t i bit = some c → child t j bit' = some c → i = j ∧ bit = bit'

theorem WF.walk_lt {t : Tree σ} (h : WF t) {p : List Bool} {n : Nat} (hp : walk t p = some n) :
    n < t.length := by
  induction p using List.reverseRecOn with
  | nil =>
    cases hp
    exact h.pos
  | append_singleton p bit _ =>
    rw [walk_concat] at hp
    obtain ⟨i, -, hc⟩ := Option.bind_eq_some_iff.mp hp
    exact (h.range hc).2

/-- Different paths lead to different nodes. -/
theorem WF.walk_injective {t : Tree σ} (h : WF t) {p q : List Bool} {n : Nat}
    (hp : walk t p = some n) (hq : walk t q = some n) : p = q := by
  induction p using List.reverseRecOn generalizing q n with
  | nil =>
    cases hp
    cases q.eq_nil_or_concat' with
    | inl hq0 => exact hq0.symm
    | inr hq1 =>
      -- no child is the root
      obtain ⟨q', bit, rfl⟩ := hq1
      rw [walk_concat] at hq
      obtain ⟨i, -, hc⟩ := Option.bind_eq_some_iff.mp hq
      exact absurd (h.range hc).1 (Nat.not_lt_zero i)
  | append_singleton p bit ih =>
    rw [walk_concat] at hp
    obtain ⟨i, hi, hc⟩ := Option.bind_eq_some_iff.mp hp
    cases q.eq_nil_or_concat' with
    | inl hq0 =>
      subst hq0
      cases hq
      exact absurd (h.range hc).1 (Nat.not_lt_zero i)
    | inr hq1 =>
      obtain ⟨q', bit', rfl⟩ := hq1
      rw [walk_concat] at hq
      obtain ⟨j, hj, hc'⟩ := Option.bind_eq_some_iff.mp hq
      obtain ⟨rfl, rfl⟩ := h.parent hc hc'
      rw [ih hi hj]

/-! ## Adding a child -/

theorem child_setChild (n : Node σ) (bit bit' : Bool) (c : Nat) :
    (n.setChild bit c).child bit' = if bit' = bit then some c else n.child bit' := by
  cases bit <;> cases bit' <;> rfl

theorem sym_setChild (n : Node σ) (bit : Bool) (c : Nat) : (n.setChild bit c).sym = n.sym := by
  cases bit <;> rfl

theorem child_empty (bit : Bool) : ({} : Node σ).child bit = none := by cases bit <;> rfl

/-- The nodes after a missing child was added. -/
theorem getElem?_addChild (t : Tree σ) (i j : Nat) (bit : Bool) :
    (addChild t i bit)[j]? =
      if j < t.length then (if i = j then t[j]?.map (·.setChild bit t.length) else t[j]?)
      else if j = t.length then some ({} : Node σ) else none := by
  have hlen : (t.modify i (·.setChild bit t.length)).length = t.length := List.length_modify ..
  unfold addChild
  rw [List.getElem?_append, hlen]
  split_ifs with h1 h2 h3
  · rw [List.getElem?_modify]
    simp only [if_pos h2]
    rfl
  · rw [List.getElem?_modify]
    simp only [if_neg h2, id_map']
  · rw [h3, Nat.sub_self]; rfl
  · exact List.getElem?_eq_none (by rw [List.length_singleton]; omega)

theorem child_addChild {t : Tree σ} {i : Nat} (hi : i < t.length) (bit : Bool) (j : Nat)
    (bit' : Bool) :
    child (addChild t i bit) j bit' =
      if j = i ∧ bit' = bit then some t.length else child t j bit' := by
  unfold child
  rw [getElem?_addChild]
  by_cases hj : j < t.length
  · rw [if_pos hj]
    by_cases hij : i = j
    · subst hij
      rw [if_pos rfl, List.getElem?_eq_getElem hj]
      simp only [Option.map_some, Option.bind_some, child_setChild, true_and]
    · rw [if_neg hij, if_neg (fun hh => hij hh.1.symm)]
  · rw [if_neg hj, if_neg (fun hh : j = i ∧ bit' = bit => hj (hh.1 ▸ hi)),
      List.getElem?_eq_none (by omega)]
    split_ifs
    · exact child_empty bit'
    · rfl

theorem symAt_addChild (t : Tree σ) (i : Nat) (bit : Bool) (j : Nat) :
    symAt (addChild t i bit) j = symAt t j := by
  unfold symAt
  rw [getElem?_addChild]
  by_cases hj : j < t.length
  · rw [if_pos hj]
    split_ifs
    · rw [List.getElem?_eq_getElem hj]
      exact sym_setChild _ _ _
    · rfl
  · rw [if_neg hj, List.getElem?_eq_none (by omega)]
    split_ifs <;> rfl

theorem length_addChild (t : Tree σ) (i : Nat) (bit : Bool) :
    (addChild t i bit).length = t.length + 1 := by
  unfold addChild
  rw [List.length_append, List.length_modify, List.length_singleton]

/-- The new node is the child of one node, on one side, and has no children. -/
theorem WF.addChild {t : Tree σ} (h : WF t) {i : Nat} (hi : i < t.length) (bit : Bool) :
    WF (addChild t i bit) := by
  refine ⟨by rw [length_addChild]; omega, fun {j bit' c} hj => ?_,
    fun {j k bit' bit'' c} hj hk => ?_⟩
  · rw [child_addChild hi] at hj
    rw [length_addChild]
    split_ifs at hj with he
    · have := Option.some.inj hj
      omega
    · have := h.range hj
      omega
  · rw [child_addChild hi] at hj hk
    split_ifs at hj hk with h1 h2 h3
    · exact ⟨h1.1.trans h2.1.symm, h1.2.trans h2.2.symm⟩
    · have := (h.range hk).2
      have := Option.some.inj hj
      omega
    · have := (h.range hj).2
      have := Option.some.inj hk
      omega
    · exact h.parent hj hk

/-- Adding the child at the end of path `p` adds the path `p ++ [bit]` and changes no other. -/
theorem WF.walk_addChild {t : Tree σ} (h : WF t) {p : List Bool} {i : Nat} (hp : walk t p = some i)
    {bit : Bool} (hc : child t i bit = none) (q : List Bool) :
    walk (Trie.addChild t i bit) q = if q = p ++ [bit] then some t.length else walk t q := by
  have hi := h.walk_lt hp
  have hnew : walk t (p ++ [bit]) = none := by rw [walk_concat, hp, Option.bind_some, hc]
  induction q using List.reverseRecOn with
  | nil => rw [if_neg (by simp)]; rfl
  | append_singleton q bit' ih =>
    rw [walk_concat, ih]
    by_cases hq : q = p ++ [bit]
    · -- below the new node there is nothing
      have hfresh : child (Trie.addChild t i bit) t.length bit' = none := by
        rw [child_addChild hi, if_neg fun hh => by omega]
        unfold child
        rw [List.getElem?_eq_none (Nat.le_refl _)]
        rfl
      rw [if_pos hq, Option.bind_some, hfresh, if_neg, walk_concat, hq, hnew]
      · rfl
      · intro he
        have := congrArg List.length he
        rw [hq] at this
        simp at this
    · rw [if_neg hq, walk_concat]
      cases hw : walk t q with
      | none =>
        rw [Option.bind_none, Option.bind_none, if_neg]
        intro he
        rw [(List.append_inj' he rfl).1, hp] at hw
        cases hw
      | some j =>
        rw [Option.bind_some, Option.bind_some, child_addChild hi]
        refine if_congr ⟨fun ⟨hj, hb⟩ => ?_, fun he => ?_⟩ rfl rfl
        · subst hj
          rw [h.walk_injective hw hp, hb]
        · obtain ⟨rfl, hb⟩ := List.append_inj' he rfl
          exact ⟨Option.some.inj (hw.symm.trans hp), by simpa using hb⟩

/-! ## Inserting -/

/-- Going to a child, there or added: the paths of the new trie, and its symbols. -/
theorem WF.grow_spec {t : Tree σ} (h : WF t) {p : List Bool} {i : Nat} (hp : walk t p = some i)
    (bit : Bool) :
    WF (grow t i bit).1 ∧ walk (grow t i bit).1 (p ++ [bit]) = some (grow t i bit).2 ∧
      (∀ q, (walk (grow t i bit).1 q).isSome ↔ (walk t q).isSome ∨ q = p ++ [bit]) ∧
      ∀ q, get (grow t i bit).1 q = get t q := by
  unfold grow
  cases hc : child t i bit with
  | some c =>
    have hw : walk t (p ++ [bit]) = some c := by rw [walk_concat, hp, Option.bind_some, hc]
    refine ⟨h, hw, fun q => ⟨Or.inl, ?_⟩, fun q => rfl⟩
    rintro (hq | rfl)
    · exact hq
    · rw [hw]; rfl
  | none =>
    have hwalk := h.walk_addChild hp hc
    have hi := h.walk_lt hp
    refine ⟨h.addChild hi bit, by rw [hwalk, if_pos rfl], fun q => ?_, fun q => ?_⟩
    · rw [hwalk]
      split_ifs with hq
      · simp [hq]
      · simp [hq]
    · unfold get
      rw [hwalk]
      split_ifs with hq
      · -- the new node has no symbol, and there was no node here
        have hnone : walk t q = none := by rw [hq, walk_concat, hp, Option.bind_some, hc]
        rw [hnone, Option.bind_some, Option.bind_none, symAt_addChild]
        unfold symAt
        rw [List.getElem?_eq_none (Nat.le_refl _)]
        rfl
      · exact congrArg _ (funext (symAt_addChild t i bit))

theorem walk_isSome_of_prefix {t : Tree σ} {p q : List Bool} (h : (walk t p).isSome)
    (hq : q <+: p) :
    (walk t q).isSome := by
  obtain ⟨r, rfl⟩ := hq
  unfold walk at h ⊢
  rw [List.foldlM_append] at h
  cases hw : List.foldlM (child t) 0 q with
  | none => rw [hw] at h; cases h
  | some i => rfl

theorem WF.growPath_spec {t : Tree σ} (h : WF t) {p : List Bool} {i : Nat} (hp : walk t p = some i)
    (r : List Bool) : WF (growPath t i r).1 ∧
      walk (growPath t i r).1 (p ++ r) = some (growPath t i r).2 ∧
      (∀ q, (walk (growPath t i r).1 q).isSome ↔ (walk t q).isSome ∨ q <+: p ++ r) ∧
      ∀ q, get (growPath t i r).1 q = get t q := by
  induction r generalizing t p i with
  | nil =>
    rw [List.append_nil]
    refine ⟨h, hp, fun q => ⟨Or.inl, ?_⟩, fun q => rfl⟩
    rintro (hq | hq)
    · exact hq
    · exact walk_isSome_of_prefix (Option.isSome_of_eq_some hp) hq
  | cons bit r ih =>
    obtain ⟨h₁, hw₁, hs₁, hg₁⟩ := h.grow_spec hp bit
    obtain ⟨h₂, hw₂, hs₂, hg₂⟩ := ih h₁ hw₁
    have he : p ++ bit :: r = (p ++ [bit]) ++ r := by simp
    rw [he]
    refine ⟨h₂, hw₂, fun q => (hs₂ q).trans ?_, fun q => (hg₂ q).trans (hg₁ q)⟩
    rw [hs₁, or_assoc]
    refine or_congr_right ⟨?_, Or.inr⟩
    rintro (rfl | hq)
    · exact List.prefix_append _ _
    · exact hq

theorem symAt_mark (t : Tree σ) (i : Nat) (v : σ) (j : Nat) :
    symAt (t.modify i fun n => { n with sym := some v }) j =
      if i = j ∧ j < t.length then some v else symAt t j := by
  unfold symAt
  rw [List.getElem?_modify]
  by_cases hj : j < t.length
  · rw [List.getElem?_eq_getElem hj]
    by_cases hij : i = j
    · rw [if_pos ⟨hij, hj⟩]
      simp [hij]
    · rw [if_neg fun hh => hij hh.1]
      simp [hij]
  · rw [List.getElem?_eq_none (by omega), if_neg fun hh => hj hh.2]
    rfl

theorem child_mark (t : Tree σ) (i : Nat) (v : σ) (j : Nat) (bit : Bool) :
    child (t.modify i fun n => { n with sym := some v }) j bit = child t j bit := by
  unfold child
  rw [List.getElem?_modify]
  cases t[j]? with
  | none => rfl
  | some n =>
    by_cases hij : i = j
    · simp [hij, Node.child]
    · simp [hij]

/-- **`insert` updates the map from paths to symbols.** -/
theorem WF.insert_spec {t : Tree σ} (h : WF t) (p : List Bool) (v : σ) :
    WF (insert t p v) ∧
      (∀ q, (walk (insert t p v) q).isSome ↔ (walk t q).isSome ∨ q <+: p) ∧
      ∀ q, get (insert t p v) q = if q = p then some v else get t q := by
  obtain ⟨h₁, hw, hs, hg⟩ := h.growPath_spec (walk_nil t) p
  rw [List.nil_append] at hw hs
  have hchild : child (insert t p v) = child (growPath t 0 p).1 := by
    funext j bit
    exact child_mark _ _ _ _ _
  have hwalk : ∀ q, walk (insert t p v) q = walk (growPath t 0 p).1 q := by
    intro q
    unfold walk
    rw [hchild]
  have hlen : (insert t p v).length = (growPath t 0 p).1.length := List.length_modify ..
  refine ⟨⟨by rw [hlen]; exact h₁.pos, ?_, ?_⟩, fun q => by rw [hwalk]; exact hs q, fun q => ?_⟩
  · rw [hchild, hlen]
    exact h₁.range
  · rw [hchild]
    exact h₁.parent
  · rw [← hg q]
    unfold get
    rw [hwalk]
    cases hq : walk (growPath t 0 p).1 q with
    | none =>
      rw [if_neg]
      · rfl
      · rintro rfl
        rw [hw] at hq
        cases hq
    | some j =>
      rw [Option.bind_some, Option.bind_some]
      unfold insert
      rw [symAt_mark]
      refine if_congr ⟨fun hj => ?_, fun he => ?_⟩ rfl rfl
      · exact h₁.walk_injective hq (hj.1 ▸ hw)
      · subst he
        exact ⟨Option.some.inj (hw.symm.trans hq), h₁.walk_lt hq⟩

theorem wf_root : WF ([{}] : Tree σ) := by
  have hnone : ∀ i bit, child ([{}] : Tree σ) i bit = none := by
    intro i bit
    cases i with
    | zero => exact child_empty bit
    | succ i => rfl
  refine ⟨Nat.zero_lt_one, fun hc => ?_, fun hc => ?_⟩
  · rw [hnone] at hc; cases hc
  · rw [hnone] at hc; cases hc

theorem walk_root_cons (bit : Bool) (q : List Bool) : walk ([{}] : Tree σ) (bit :: q) = none := by
  have hnil : child ([{}] : Tree σ) 0 bit = none := child_empty bit
  unfold walk
  rw [List.foldlM_cons, hnil]
  rfl

/-- **The trie of a table** that gives each path one symbol. -/
theorem build_spec (table : List (List Bool × σ)) :
    WF (build table) ∧
      (∀ q, (walk (build table) q).isSome ↔ q = [] ∨ ∃ e ∈ table, q <+: e.1) ∧
      ((∀ e ∈ table, ∀ e' ∈ table, e.1 = e'.1 → e = e') →
        ∀ q v, get (build table) q = some v ↔ (q, v) ∈ table) := by
  induction table using List.reverseRecOn with
  | nil =>
    refine ⟨wf_root, fun q => ?_, fun _ q v => ?_⟩
    · cases q with
      | nil => simp [walk_nil]
      | cons bit q => simp [build, walk_root_cons]
    · cases q with
      | nil => simp [build, get, walk_nil, symAt]
      | cons bit q => simp [build, get, walk_root_cons]
  | append_singleton table e ih =>
    obtain ⟨hwf, hs, hg⟩ := ih
    obtain ⟨hwf', hs', hg'⟩ := hwf.insert_spec e.1 e.2
    have hb : build (table ++ [e]) = insert (build table) e.1 e.2 := by
      unfold build
      rw [List.foldl_append]
      rfl
    rw [hb]
    refine ⟨hwf', fun q => ?_, fun hfun q v => ?_⟩
    · rw [hs', hs, or_assoc]
      refine or_congr_right ?_
      simp only [List.mem_append, List.mem_singleton, or_and_right, exists_or, exists_eq_left]
    · rw [hg', List.mem_append, List.mem_singleton]
      split_ifs with hq
      · constructor
        · intro hv
          right
          rw [hq, ← Option.some.inj hv]
        · rintro (hm | he)
          · have := hfun (q, v) (List.mem_append_left _ hm) e (by simp) hq
            rw [← this]
          · rw [← he]
      · rw [hg fun e₁ h₁ e₂ h₂ =>
          hfun e₁ (List.mem_append_left _ h₁) e₂ (List.mem_append_left _ h₂)]
        refine ⟨Or.inl, fun hm => hm.resolve_right ?_⟩
        rintro rfl
        exact hq rfl

/-! ## Nodes -/

/-- Every node lies at the end of a path. -/
def Reached (t : Tree σ) : Prop := ∀ n < t.length, ∃ p, walk t p = some n

theorem Reached.grow {t : Tree σ} (h : WF t) (hr : Reached t) {p : List Bool} {i : Nat}
    (hp : walk t p = some i) (bit : Bool) : Reached (grow t i bit).1 := by
  unfold Trie.grow
  cases hc : child t i bit with
  | some c => exact hr
  | none =>
    have hwalk := h.walk_addChild hp hc
    intro n hn
    rw [length_addChild] at hn
    rcases Nat.lt_succ_iff_lt_or_eq.mp hn with hn | rfl
    · obtain ⟨q, hq⟩ := hr n hn
      refine ⟨q, ?_⟩
      rw [hwalk, if_neg, hq]
      rintro rfl
      rw [walk_concat, hp, Option.bind_some, hc] at hq
      cases hq
    · exact ⟨p ++ [bit], by rw [hwalk, if_pos rfl]⟩

theorem Reached.growPath {t : Tree σ} (h : WF t) (hr : Reached t) {p : List Bool} {i : Nat}
    (hp : walk t p = some i) (r : List Bool) : Reached (growPath t i r).1 := by
  induction r generalizing t p i with
  | nil => exact hr
  | cons bit r ih =>
    obtain ⟨h₁, hw₁, -, -⟩ := h.grow_spec hp bit
    exact ih h₁ (hr.grow h hp bit) hw₁

theorem Reached.insert {t : Tree σ} (h : WF t) (hr : Reached t) (p : List Bool) (v : σ) :
    Reached (insert t p v) := by
  intro n hn
  have hlen : (Trie.insert t p v).length = (Trie.growPath t 0 p).1.length := List.length_modify ..
  obtain ⟨q, hq⟩ := hr.growPath h (walk_nil t) p n (hlen ▸ hn)
  refine ⟨q, ?_⟩
  have hchild : child (Trie.insert t p v) = child (Trie.growPath t 0 p).1 := by
    funext j bit
    exact child_mark _ _ _ _ _
  unfold walk at hq ⊢
  rw [hchild, hq]

theorem reached_build (table : List (List Bool × σ)) : Reached (build table) := by
  induction table using List.reverseRecOn with
  | nil =>
    intro n hn
    exact ⟨[], by rw [Nat.lt_one_iff.mp hn]; rfl⟩
  | append_singleton table e ih =>
    have hb : build (table ++ [e]) = Trie.insert (build table) e.1 e.2 := by
      unfold build
      rw [List.foldl_append]
      rfl
    rw [hb]
    exact ih.insert (build_spec table).1 e.1 e.2

/-! ## Reading -/

/-- One bit of a reader: down to a child, and back to the root with the symbol found there. -/
def step (t : Tree σ) (i : Nat) (bit : Bool) : Option (Nat × Option σ) :=
  (child t i bit).map fun c =>
    match symAt t c with
    | some v => (0, some v)
    | none => (c, none)

/-- Behind a symbol the reader is at the root. -/
theorem step_sym {t : Tree σ} {i c : Nat} {bit : Bool} {v : σ}
    (h : step t i bit = some (c, some v)) : c = 0 := by
  unfold step at h
  obtain ⟨d, -, hd⟩ := Option.map_eq_some_iff.mp h
  split at hd
  · exact (Prod.mk.inj hd).1.symm
  · cases (Prod.mk.inj hd).2

/-- The symbols read from a bit string, and the node where the reader stops. -/
def run (t : Tree σ) : Nat → List Bool → Option (List σ × Nat)
  | i, [] => some ([], i)
  | i, bit :: bs =>
    (step t i bit).bind fun r => (run t r.1 bs).map fun s => (r.2.toList ++ s.1, s.2)

theorem run_append (t : Tree σ) (b : List Bool) : ∀ (a : List Bool) (i : Nat),
    run t i (a ++ b) = (run t i a).bind fun r => (run t r.2 b).map fun s => (r.1 ++ s.1, s.2)
  | [], i => by
    rw [List.nil_append, run, Option.bind_some]
    simp
  | bit :: a, i => by
    rw [List.cons_append, run, run]
    cases step t i bit with
    | none => rfl
    | some r =>
      rw [Option.bind_some, Option.bind_some, run_append t b a]
      cases run t r.1 a with
      | none => rfl
      | some s =>
        rw [Option.bind_some, Option.map_some, Option.bind_some, Option.map_map]
        simp [Function.comp_def]

/-- A path without symbols is walked silently. -/
theorem run_path {t : Tree σ} {r : List Bool} : ∀ {p : List Bool} {i j : Nat}, walk t p = some i →
    walk t (p ++ r) = some j → (∀ q, q ≠ [] → q <+: r → get t (p ++ q) = none) →
      run t i r = some ([], j) := by
  induction r with
  | nil =>
    intro p i j hp hj _
    rw [List.append_nil, hp] at hj
    rw [← Option.some.inj hj]
    rfl
  | cons bit r ih =>
    intro p i j hp hj hsym
    have he : p ++ bit :: r = (p ++ [bit]) ++ r := by simp
    have hsome : (walk t (p ++ [bit])).isSome := by
      refine walk_isSome_of_prefix (p := p ++ bit :: r) (Option.isSome_of_eq_some hj) ?_
      rw [he]
      exact List.prefix_append _ _
    obtain ⟨c, hc⟩ := Option.isSome_iff_exists.mp hsome
    have hchild : child t i bit = some c := by rwa [walk_concat, hp, Option.bind_some] at hc
    have hnone : symAt t c = none := by
      have := hsym [bit] (by simp) (by simp)
      rwa [get, hc, Option.bind_some] at this
    have hrest := ih hc (he ▸ hj) fun q hq hpre => by
      have := hsym (bit :: q) (by simp) (by simpa using hpre)
      simpa using this
    rw [run, step, hchild, Option.map_some, hnone, Option.bind_some, hrest]
    rfl

/-- No path is a prefix of another one's, or empty. -/
structure PrefixFree (table : List (List Bool × σ)) : Prop where
  ne_nil : ∀ e ∈ table, e.1 ≠ []
  eq     : ∀ e ∈ table, ∀ e' ∈ table, e.1 <+: e'.1 → e = e'

namespace PrefixFree

variable {table : List (List Bool × σ)} (h : PrefixFree table)

include h

theorem get_build (q : List Bool) (v : σ) : get (build table) q = some v ↔ (q, v) ∈ table :=
  (build_spec table).2.2 (fun e he e' he' hp => h.eq e he e' he' (hp ▸ List.prefix_refl _)) q v

theorem get_root : get (build table) [] = none := by
  cases hg : get (build table) [] with
  | none => rfl
  | some v => exact absurd rfl (h.ne_nil _ ((h.get_build [] v).mp hg))

/-- A proper prefix of a path is in the trie and has no symbol, nor has anything above it. -/
theorem run_stub {e : List Bool × σ} (he : e ∈ table) {r : List Bool} (hr : r <+: e.1)
    (hne : r ≠ e.1) :
    ∃ j, walk (build table) r = some j ∧ run (build table) 0 r = some ([], j) := by
  have hsome := ((build_spec table).2.1 r).mpr (Or.inr ⟨e, he, hr⟩)
  obtain ⟨j, hj⟩ := Option.isSome_iff_exists.mp hsome
  refine ⟨j, hj, run_path (p := []) (walk_nil _) hj fun q _ hq => ?_⟩
  cases hg : get (build table) ([] ++ q) with
  | none => rfl
  | some v =>
    have hmem := (h.get_build q v).mp hg
    have hqe := h.eq (q, v) hmem e he (hq.trans hr)
    exact absurd (hr.eq_of_length_le (by rw [← hqe]; exact hq.length_le)) hne

/-- A path is read as its symbol. -/
theorem run_code {e : List Bool × σ} (he : e ∈ table) :
    run (build table) 0 e.1 = some ([e.2], 0) := by
  obtain ⟨c, v⟩ := e
  cases c.eq_nil_or_concat' with
  | inl h0 => exact absurd h0 (h.ne_nil _ he)
  | inr h1 =>
    obtain ⟨r, bit, rfl⟩ := h1
    obtain ⟨j, hj, hrun⟩ := h.run_stub he (List.prefix_append r [bit]) (by simp)
    have hget := (h.get_build (r ++ [bit]) v).mpr he
    rw [get, walk_concat, hj, Option.bind_some] at hget
    obtain ⟨c, hc, hv⟩ := Option.bind_eq_some_iff.mp hget
    rw [run_append, hrun, Option.bind_some, run, step, hc, Option.map_some, hv]
    rfl

/-- **A concatenation of paths is read as their symbols.** -/
theorem run_codes (r : List Bool) : ∀ (es : List (List Bool × σ)), (∀ e ∈ es, e ∈ table) →
    run (build table) 0 (es.flatMap Prod.fst ++ r) =
      (run (build table) 0 r).map fun s => (es.map Prod.snd ++ s.1, s.2)
  | [], _ => by simp
  | e :: es, hes => by
    have ih := run_codes r es fun e' he' => hes e' (List.mem_cons_of_mem e he')
    rw [List.flatMap_cons, List.append_assoc, run_append, h.run_code (hes e List.mem_cons_self),
      Option.bind_some, ih, Option.map_map]
    rfl

/-- **A node with a symbol has no children.** -/
theorem leaf {n : Nat} {v : σ} (hv : symAt (build table) n = some v) (bit : Bool) :
    child (build table) n bit = none := by
  have hn : n < (build table).length := by
    by_contra hn
    unfold symAt at hv
    rw [List.getElem?_eq_none (Nat.le_of_not_lt hn)] at hv
    cases hv
  obtain ⟨p, hp⟩ := reached_build table n hn
  have hmem := (h.get_build p v).mp (by rw [get, hp, Option.bind_some, hv])
  cases hc : child (build table) n bit with
  | none => rfl
  | some c =>
    -- the child's path is that of a longer code
    have hw : walk (build table) (p ++ [bit]) = some c := by
      rw [walk_concat, hp, Option.bind_some, hc]
    rcases ((build_spec table).2.1 _).mp (Option.isSome_of_eq_some hw) with h0 | ⟨e, he, hpre⟩
    · simp at h0
    · have heq := h.eq (p, v) hmem e he ((List.prefix_append p [bit]).trans hpre)
      rw [← heq] at hpre
      have hlen : p.length + 1 ≤ p.length := by simpa using hpre.length_le
      exact absurd hlen (Nat.not_succ_le_self _)

/-- What a reader has read from the node at path `p`: whole paths, and a rest that leads to the node
where it stops. -/
theorem run_sound : ∀ {bs : List Bool} {p : List Bool} {i j : Nat} {syms : List σ},
    walk (build table) p = some i → get (build table) p = none →
    run (build table) i bs = some (syms, j) →
      ∃ (es : List (List Bool × σ)) (r : List Bool), (∀ e ∈ es, e ∈ table) ∧
        p ++ bs = es.flatMap Prod.fst ++ r ∧ syms = es.map Prod.snd ∧
        walk (build table) r = some j ∧ get (build table) r = none
  | [], p, i, j, syms, hp, hg, hr => by
    cases hr
    exact ⟨[], p, by simp, by simp, rfl, hp, hg⟩
  | bit :: bs, p, i, j, syms, hp, hg, hr => by
    rw [run] at hr
    obtain ⟨⟨c, sym⟩, hstep, hr⟩ := Option.bind_eq_some_iff.mp hr
    obtain ⟨⟨syms', j'⟩, hrest, hr⟩ := Option.map_eq_some_iff.mp hr
    obtain ⟨rfl, rfl⟩ := Prod.mk.inj hr
    unfold step at hstep
    obtain ⟨d, hd, hstep⟩ := Option.map_eq_some_iff.mp hstep
    have hw : walk (build table) (p ++ [bit]) = some d := by
      rw [walk_concat, hp, Option.bind_some, hd]
    have hget : get (build table) (p ++ [bit]) = symAt (build table) d := by
      rw [get, hw, Option.bind_some]
    have hcons : p ++ bit :: bs = (p ++ [bit]) ++ bs := by simp
    cases hs : symAt (build table) d with
    | some v =>
      -- a path ends here, and the reader is back at the root
      simp only [hs, Prod.mk.injEq] at hstep
      obtain ⟨rfl, rfl⟩ := hstep
      obtain ⟨es, r, hes, hbs, rfl, hr, hrg⟩ := run_sound (walk_nil _) h.get_root hrest
      refine ⟨(p ++ [bit], v) :: es, r, ?_, ?_, rfl, hr, hrg⟩
      · exact List.forall_mem_cons.mpr ⟨(h.get_build _ _).mp (hget.trans hs), hes⟩
      · rw [List.nil_append] at hbs
        rw [hcons, List.flatMap_cons, hbs]
        exact (List.append_assoc _ _ _).symm
    | none =>
      simp only [hs, Prod.mk.injEq] at hstep
      obtain ⟨rfl, rfl⟩ := hstep
      obtain ⟨es, r, hes, hbs, hsyms, hr, hrg⟩ := run_sound hw (hget.trans hs) hrest
      exact ⟨es, r, hes, hcons.trans hbs, hsyms, hr, hrg⟩

end PrefixFree

/-- A proper prefix of some path. -/
def Stub (table : List (List Bool × σ)) (r : List Bool) : Prop := ∃ e ∈ table, r <+: e.1 ∧ r ≠ e.1

/-- **What is read is whole paths and a proper prefix of one.** -/
theorem PrefixFree.run_eq_some_iff {table : List (List Bool × σ)} (h : PrefixFree table)
    (hne : table ≠ []) {bs : List Bool} {syms : List σ} :
    (∃ j, run (build table) 0 bs = some (syms, j)) ↔
      ∃ (es : List (List Bool × σ)) (r : List Bool), (∀ e ∈ es, e ∈ table) ∧ Stub table r ∧
        bs = es.flatMap Prod.fst ++ r ∧ syms = es.map Prod.snd := by
  constructor
  · rintro ⟨j, hr⟩
    obtain ⟨es, r, hes, hbs, hsyms, hw, hg⟩ := h.run_sound (walk_nil _) h.get_root hr
    refine ⟨es, r, hes, ?_, hbs, hsyms⟩
    rcases ((build_spec table).2.1 r).mp (Option.isSome_of_eq_some hw) with rfl | ⟨e, he, hpre⟩
    · obtain ⟨e, tl, rfl⟩ := List.exists_cons_of_ne_nil hne
      exact ⟨e, List.mem_cons_self, List.nil_prefix, (h.ne_nil e List.mem_cons_self).symm⟩
    · refine ⟨e, he, hpre, ?_⟩
      rintro rfl
      rw [(h.get_build e.1 e.2).mpr he] at hg
      cases hg
  · rintro ⟨es, r, hes, ⟨e, he, hpre, hr⟩, rfl, rfl⟩
    obtain ⟨j, -, hrun⟩ := h.run_stub he hpre hr
    refine ⟨j, ?_⟩
    rw [h.run_codes r es hes, hrun, Option.map_some, List.append_nil]

end Uproxy.Lib.Trie
