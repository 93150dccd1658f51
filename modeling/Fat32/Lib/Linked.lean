import Mathlib

/-!
# Linked chains

Cells linked by a partial successor function `next`, with `fin` telling where a
chain ends. `Chain next fin a l`: following the links from `a` visits the cells
`l`, `a` first, and ends at an end mark. As `next` is a function and no end mark
has a successor, a cell has at most one chain (`Chain.unique`), which visits no
cell twice (`Chain.nodup`), and two chains that meet share their rest
(`Chain.suffix`).

A `Forest` is a set of heads whose chains do not meet. The operations of an
allocator on a forest are those that change the chain of one head: a new chain,
a longer one, a shorter one, or none (`Forest.insert`, `Forest.replace`,
`Forest.erase`).
-/

namespace Linked

variable {α : Type}

/-- The cells from `a` to the end mark. -/
inductive Chain (next : α → Option α) (fin : α → Prop) : α → List α → Prop
  | last {a : α} (h : fin a) : Chain next fin a [a]
  | link {a b : α} {l : List α} (h : next a = some b) (t : Chain next fin b l) :
      Chain next fin a (a :: l)

/-- An end mark has no successor. -/
def Ends (next : α → Option α) (fin : α → Prop) : Prop := ∀ a, fin a → next a = none

/-- The cell `n` links after `a`. -/
def walk (next : α → Option α) : Nat → α → Option α
  | 0, a => some a
  | n + 1, a => (next a).bind (walk next n)

variable {next next' : α → Option α} {fin fin' : α → Prop} {a b c : α} {l m : List α}

namespace Chain

theorem head_eq (h : Chain next fin a l) : ∃ t, l = a :: t := by
  cases h <;> exact ⟨_, rfl⟩

theorem head_mem (h : Chain next fin a l) : a ∈ l := by
  obtain ⟨t, rfl⟩ := h.head_eq
  exact List.mem_cons_self

theorem ne_nil (h : Chain next fin a l) : l ≠ [] := List.ne_nil_of_mem h.head_mem

theorem length_pos (h : Chain next fin a l) : 0 < l.length := List.length_pos_of_mem h.head_mem

theorem unique (he : Ends next fin) (h : Chain next fin a l) :
    ∀ {m}, Chain next fin a m → l = m := by
  induction h with
  | last hf =>
    intro m hm
    cases hm with
    | last => rfl
    | link hn => rw [he _ hf] at hn; cases hn
  | link hn _ ih =>
    intro m hm
    cases hm with
    | last hf => rw [he _ hf] at hn; cases hn
    | link hn' t =>
      obtain rfl := Option.some.inj (hn.symm.trans hn')
      rw [ih t]

/-- The chain of a cell on a chain. -/
theorem suffix (h : Chain next fin a l) (hb : b ∈ l) :
    ∃ p s, l = p ++ s ∧ Chain next fin b s := by
  induction h with
  | last hf =>
    obtain rfl := List.mem_singleton.mp hb
    exact ⟨[], _, rfl, .last hf⟩
  | link hn t ih =>
    rcases List.mem_cons.mp hb with rfl | hb
    · exact ⟨[], _, rfl, .link hn t⟩
    · obtain ⟨p, s, rfl, hs⟩ := ih hb
      exact ⟨_ :: p, s, rfl, hs⟩

theorem nodup (he : Ends next fin) (h : Chain next fin a l) : l.Nodup := by
  induction h with
  | last => exact List.nodup_singleton _
  | link hn t ih =>
    refine List.nodup_cons.mpr ⟨fun hmem => ?_, ih⟩
    -- a cell met again would have two chains of different lengths
    obtain ⟨p, s, hps, hs⟩ := t.suffix hmem
    have hlen := congrArg List.length (unique he (.link hn t) hs)
    rw [hps] at hlen
    simp only [List.length_cons, List.length_append] at hlen
    omega

theorem congr (h : Chain next fin a l) (hn : ∀ b ∈ l, next' b = next b)
    (hf : ∀ b ∈ l, fin b → fin' b) : Chain next' fin' a l := by
  induction h with
  | last h => exact .last (hf _ List.mem_cons_self h)
  | link h t ih =>
    exact .link ((hn _ List.mem_cons_self).trans h)
      (ih (fun b hb => hn b (List.mem_cons_of_mem _ hb))
        fun b hb => hf b (List.mem_cons_of_mem _ hb))

/-- The last cell carries an end mark. -/
theorem getLast_fin (h : Chain next fin a l) : fin (l.getLast h.ne_nil) := by
  induction h with
  | last h => exact h
  | link _ t ih => rw [List.getLast_cons t.ne_nil]; exact ih

/-- Linking a cell of its own after the last one. -/
theorem append (he : Ends next fin) (h : Chain next fin a l)
    (hc : next' (l.getLast h.ne_nil) = some c) (hf : fin' c)
    (hn : ∀ b ∈ l, b ≠ l.getLast h.ne_nil → next' b = next b) : Chain next' fin' a (l ++ [c]) := by
  induction h with
  | last _ => exact .link hc (.last hf)
  | @link a b l h t ih =>
    have hlast : (a :: l).getLast (List.cons_ne_nil a l) = l.getLast t.ne_nil :=
      List.getLast_cons t.ne_nil
    rw [hlast] at hc hn
    refine .link ?_ (ih hc fun b hb => hn b (List.mem_cons_of_mem _ hb))
    rw [hn a List.mem_cons_self, h]
    intro e
    rw [he a (e ▸ t.getLast_fin)] at h
    cases h

/-- Cutting a chain after one of its cells. -/
theorem cut {p s : List α} (h : Chain next fin a l) (hl : l = p ++ c :: s) (hc : fin' c)
    (hn : ∀ b ∈ p, next' b = next b) : Chain next' fin' a (p ++ [c]) := by
  induction h generalizing p with
  | last _ =>
    cases p with
    | nil => cases hl; exact .last hc
    | cons b p => cases p <;> cases hl
  | link h t ih =>
    cases p with
    | nil => cases hl; exact .last hc
    | cons b p =>
      obtain ⟨rfl, rfl⟩ := List.cons.inj hl
      refine .link ((hn _ List.mem_cons_self).trans h) ?_
      exact ih rfl fun b hb => hn b (List.mem_cons_of_mem _ hb)

/-- The rest of a chain after one of its cells. -/
theorem rest {p s : List α} (h : Chain next fin a l) (hl : l = p ++ c :: s) (hs : s ≠ []) :
    ∃ b, next c = some b ∧ Chain next fin b s := by
  induction h generalizing p with
  | last _ =>
    cases p with
    | nil => cases hl; exact absurd rfl hs
    | cons b p => cases p <;> cases hl
  | link h t ih =>
    cases p with
    | nil => cases hl; exact ⟨_, h, t⟩
    | cons b p => exact ih (List.cons.inj hl).2

/-- The chain of a cell, from where it is in a chain. -/
theorem split {p s : List α} (h : Chain next fin a l) (hl : l = p ++ c :: s) :
    Chain next fin c (c :: s) := by
  induction h generalizing p with
  | last hf =>
    cases p with
    | nil => cases hl; exact .last hf
    | cons b p => cases p <;> cases hl
  | link hn t ih =>
    cases p with
    | nil => cases hl; exact .link hn t
    | cons b p => exact ih (List.cons.inj hl).2

theorem walk_getElem (h : Chain next fin a l) : ∀ i (hi : i < l.length), walk next i a = some l[i] := by
  induction h with
  | last => intro i hi; obtain rfl : i = 0 := by simpa using hi
            rfl
  | link h t ih =>
    intro i hi
    cases i with
    | zero => rfl
    | succ i => rw [walk, h]; exact ih i (by simpa using hi)

theorem walk_none (he : Ends next fin) (h : Chain next fin a l) :
    ∀ i, l.length ≤ i → walk next i a = none := by
  induction h with
  | last h =>
    intro i hi
    cases i with
    | zero => simp at hi
    | succ i => rw [walk, he _ h]; rfl
  | link h t ih =>
    intro i hi
    cases i with
    | zero => simp at hi
    | succ i => rw [walk, h]; exact ih i (by simpa using hi)

/-- Walking along a chain. -/
theorem walk_eq (he : Ends next fin) (h : Chain next fin a l) (i : Nat) : walk next i a = l[i]? := by
  by_cases hi : i < l.length
  · rw [h.walk_getElem i hi, List.getElem?_eq_getElem hi]
  · rw [h.walk_none he i (not_lt.mp hi), List.getElem?_eq_none (not_lt.mp hi)]

/-- The cell with index `i` is the last one or is linked to the next one. -/
theorem step (h : Chain next fin a l) : ∀ {i}, l[i]? = some c →
    fin c ∧ l.length = i + 1 ∨ ∃ b, next c = some b ∧ l[i + 1]? = some b := by
  induction h with
  | last h =>
    intro i hi
    cases i with
    | zero => exact .inl ⟨Option.some.inj hi ▸ h, rfl⟩
    | succ i => cases hi
  | link h t ih =>
    intro i hi
    cases i with
    | zero =>
      obtain rfl := Option.some.inj hi
      obtain ⟨t', rfl⟩ := t.head_eq
      exact .inr ⟨_, h, rfl⟩
    | succ i =>
      rcases ih hi with ⟨hf, hlen⟩ | hb
      · exact .inl ⟨hf, by rw [List.length_cons, hlen]⟩
      · exact .inr hb

/-- Nothing on a chain is linked to its head. -/
theorem head_not_linked (he : Ends next fin) (h : Chain next fin a l) (hb : b ∈ l) :
    next b ≠ some a := by
  intro hn
  obtain ⟨p, s, rfl, hs⟩ := h.suffix hb
  cases hs with
  | last hf =>
    rw [he b hf] at hn
    cases hn
  | @link _ d t hd ht =>
    obtain rfl : d = a := Option.some.inj (hd.symm.trans hn)
    -- the chain would be a part of itself
    have hlen := congrArg List.length (h.unique he ht)
    simp only [List.length_append, List.length_cons] at hlen
    omega

/-- Only one cell of a chain is linked to a given one. -/
theorem link_unique (he : Ends next fin) (h : Chain next fin a l) {d : α} (hb : b ∈ l) (hc : c ∈ l)
    (hbd : next b = some d) (hcd : next c = some d) : b = c := by
  have rest {e : α} (hmem : e ∈ l) (hed : next e = some d) :
      ∃ p t, l = p ++ e :: t ∧ Chain next fin d t := by
    obtain ⟨p, s, rfl, hs⟩ := h.suffix hmem
    cases hs with
    | last hf =>
      rw [he e hf] at hed
      cases hed
    | @link _ f t hf ht =>
      obtain rfl : f = d := Option.some.inj (hf.symm.trans hed)
      exact ⟨p, t, rfl, ht⟩
  obtain ⟨p, t, hp, ht⟩ := rest hb hbd
  obtain ⟨q, t', hq, ht'⟩ := rest hc hcd
  obtain rfl := ht.unique he ht'
  have hsplit : p ++ b :: t = q ++ c :: t := hp.symm.trans hq
  exact (List.cons.inj (List.append_inj_right' hsplit rfl)).1

/-- Two chains that meet at `c` agree from there on. -/
theorem meet (he : Ends next fin) (h : Chain next fin a l) (k : Chain next fin b m) (hc : c ∈ l)
    (hc' : c ∈ m) : ∃ p q s, l = p ++ s ∧ m = q ++ s ∧ Chain next fin c s := by
  obtain ⟨p, s, rfl, hs⟩ := h.suffix hc
  obtain ⟨q, t, rfl, ht⟩ := k.suffix hc'
  obtain rfl := hs.unique he ht
  exact ⟨p, q, s, rfl, rfl, hs⟩

end Chain

theorem walk_succ (next : α → Option α) (n : Nat) (a : α) :
    walk next (n + 1) a = (walk next n a).bind next := by
  induction n generalizing a with
  | zero => cases h : next a <;> simp [walk, h]
  | succ n ih =>
    rw [walk]
    conv => rhs; rw [walk]
    cases next a with
    | none => rfl
    | some b => exact ih b

theorem walk_add (next : α → Option α) (m n : Nat) (a : α) :
    walk next (m + n) a = (walk next m a).bind (walk next n) := by
  induction m generalizing a with
  | zero => simp [walk]
  | succ m ih =>
    rw [Nat.succ_add, walk, walk]
    cases next a with
    | none => rfl
    | some b => exact ih b

/-- Links that come to an end are those of a chain. -/
theorem exists_chain {n : Nat} : ∀ {a : α}, walk next n a = none →
    ∃ l, Chain next (fun b => next b = none) a l := by
  induction n with
  | zero => exact fun h => nomatch h
  | succ n ih =>
    intro a h
    rw [walk] at h
    cases ha : next a with
    | none => exact ⟨[a], .last ha⟩
    | some b =>
      rw [ha] at h
      obtain ⟨l, hl⟩ := ih h
      exact ⟨a :: l, .link ha hl⟩

/-! ## Forests -/

/-- Heads whose chains do not meet. -/
structure Forest (next : α → Option α) (fin : α → Prop) (H : Set α) : Prop where
  chain : ∀ h ∈ H, ∃ l, Chain next fin h l
  apart : ∀ {g h l m}, g ∈ H → h ∈ H → g ≠ h → Chain next fin g l → Chain next fin h m →
    l.Disjoint m

namespace Forest

variable {H : Set α}

/-- A cell is on the chain of one head only. -/
theorem head_unique (F : Forest next fin H) {g h : α} (hg : g ∈ H) (hh : h ∈ H)
    (hl : Chain next fin g l) (hm : Chain next fin h m) (hc : c ∈ l) (hc' : c ∈ m) : g = h := by
  by_contra hne
  exact F.apart hg hh hne hl hm hc hc'

/-- Chains away from the changed cells `D` are those of before. -/
theorem keep (he' : Ends next' fin') {D : α → Prop} {g : α} (hn : ∀ b, ¬ D b → next' b = next b)
    (hf : ∀ b, ¬ D b → fin b → fin' b) (h : Chain next fin g l) (hD : ∀ b ∈ l, ¬ D b)
    (h' : Chain next' fin' g m) : m = l :=
  h'.unique he' (h.congr (fun b hb => hn b (hD b hb)) fun b hb => hf b (hD b hb))

/-- The chain of `a` is replaced by `m`, which takes its cells from the chain of
`a` and from cells on no chain; the chains of the other heads are kept. With
`a ∉ H` a new head is added. -/
theorem replace (he' : Ends next' fin') (F : Forest next fin H) {D : α → Prop}
    (hn : ∀ b, ¬ D b → next' b = next b) (hf : ∀ b, ¬ D b → fin b → fin' b)
    (hD : ∀ g ∈ H, g ≠ a → ∀ l, Chain next fin g l → ∀ b ∈ l, ¬ D b ∧ b ∉ m)
    (hm : Chain next' fin' a m) : Forest next' fin' (insert a H) := by
  have old (g) (hg : g ∈ insert a H) (hga : g ≠ a) : ∃ l, Chain next fin g l ∧
      Chain next' fin' g l ∧ (∀ b ∈ l, ¬ D b ∧ b ∉ m) ∧ g ∈ H := by
    have hg' : g ∈ H := hg.resolve_left hga
    obtain ⟨l, hl⟩ := F.chain g hg'
    have hb := hD g hg' hga l hl
    exact ⟨l, hl, hl.congr (fun b h => hn b (hb b h).1) (fun b h => hf b (hb b h).1), hb, hg'⟩
  refine ⟨fun h hh => ?_, fun {g h l k} hg hh hne hl hk => ?_⟩
  · by_cases e : h = a
    · exact ⟨m, e ▸ hm⟩
    · obtain ⟨l, -, hl, -⟩ := old h hh e
      exact ⟨l, hl⟩
  · by_cases eg : g = a
    · subst eg
      obtain ⟨k', -, hk', hb, -⟩ := old h hh (Ne.symm hne)
      obtain rfl := hk.unique he' hk'
      obtain rfl := hl.unique he' hm
      exact fun c hc hc' => (hb c hc').2 hc
    · obtain ⟨l', hl0, hl', hb, hgH⟩ := old g hg eg
      obtain rfl := hl.unique he' hl'
      by_cases eh : h = a
      · subst eh
        obtain rfl := hk.unique he' hm
        exact fun c hc hc' => (hb c hc).2 hc'
      · obtain ⟨k', hk0, hk', -, hhH⟩ := old h hh eh
        obtain rfl := hk.unique he' hk'
        exact F.apart hgH hhH hne hl0 hk0

/-- The chain of `a` is taken away. -/
theorem erase (he' : Ends next' fin') (F : Forest next fin H) {D : α → Prop}
    (hn : ∀ b, ¬ D b → next' b = next b) (hf : ∀ b, ¬ D b → fin b → fin' b)
    (hD : ∀ g ∈ H, g ≠ a → ∀ l, Chain next fin g l → ∀ b ∈ l, ¬ D b) :
    Forest next' fin' (H \ {a}) := by
  have old (g) (hg : g ∈ H \ {a}) : ∃ l, Chain next fin g l ∧ Chain next' fin' g l := by
    obtain ⟨l, hl⟩ := F.chain g hg.1
    have hb := hD g hg.1 hg.2 l hl
    exact ⟨l, hl, hl.congr (fun b h => hn b (hb b h)) fun b h => hf b (hb b h)⟩
  refine ⟨fun h hh => ?_, fun {g h l k} hg hh hne hl hk => ?_⟩
  · obtain ⟨l, -, hl⟩ := old h hh
    exact ⟨l, hl⟩
  · obtain ⟨l', hl0, hl'⟩ := old g hg
    obtain ⟨k', hk0, hk'⟩ := old h hh
    obtain rfl := hl.unique he' hl'
    obtain rfl := hk.unique he' hk'
    exact F.apart hg.1 hh.1 hne hl0 hk0

/-- Fewer heads. -/
theorem mono (F : Forest next fin H) {H' : Set α} (h : H' ⊆ H) : Forest next fin H' :=
  ⟨fun g hg => F.chain g (h hg), fun hg hh => F.apart (h hg) (h hh)⟩

end Forest

end Linked
