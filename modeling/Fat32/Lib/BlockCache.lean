import Mathlib.Logic.Function.Basic
import Mathlib.Tactic.Basic

/-!
# A block cache with delayed writes

A cache that is keyed by the range of blocks asked for, its start and its length.
A request finds the buffer of its own range only: buffers of different ranges
know nothing of each other, and each is written back when the cache likes. As
long as any two ranges in use are the same or share no block (`Range.Fits`), the
cache and the disk behind it are one memory (`Holds`), which every request reads
(`Holds.read`), whatever is written back and dropped in between (`Holds.run`).
-/

namespace BlockCache

/-- The blocks from `start` on, `len` of them. -/
structure Range where
  start : Nat
  len : Nat
  deriving DecidableEq, Repr

def Range.Has (k : Range) (b : Nat) : Prop := k.start ≤ b ∧ b < k.start + k.len

instance (k : Range) (b : Nat) : Decidable (k.Has b) := inferInstanceAs (Decidable (_ ∧ _))

/-- The ranges share no block. -/
def Range.Apart (k l : Range) : Prop := ∀ b, k.Has b → ¬ l.Has b

def Range.Fits (k l : Range) : Prop := k = l ∨ k.Apart l

/-- Single blocks. -/
theorem Range.Fits.of_one {k l : Range} (hk : k.len = 1) (hl : l.len = 1) : k.Fits l := by
  by_cases e : k.start = l.start
  · exact .inl (by cases k; cases l; cases e; cases hk; cases hl; rfl)
  · refine .inr fun b hb hlb => e ?_
    rw [Range.Has, hk] at hb
    rw [Range.Has, hl] at hlb
    omega

/-- A buffer: the blocks by their numbers, and whether they have to be written back. -/
structure Buffer (β : Type) where
  data : Nat → β
  dirty : Bool

structure Cache (β : Type) where
  disk : Nat → β
  buf : Range → Option (Buffer β)

variable {β : Type}

/-- What a request for a range sees. -/
def Cache.read (s : Cache β) (k : Range) : Nat → β :=
  match s.buf k with
  | some b => b.data
  | none => s.disk

def Cache.put (s : Cache β) (k : Range) (b : Option (Buffer β)) : Cache β :=
  { s with buf := Function.update s.buf k b }

@[simp] theorem Cache.put_self (s : Cache β) (k : Range) (b : Option (Buffer β)) :
    (s.put k b).buf k = b := Function.update_self ..

theorem Cache.put_ne (s : Cache β) {k l : Range} (h : l ≠ k) (b : Option (Buffer β)) :
    (s.put k b).buf l = s.buf l := Function.update_of_ne h ..

/-- The requests: a range is read into its buffer, or stored there. -/
inductive Request (β : Type) where
  | load (k : Range)
  | store (k : Range) (data : Nat → β)

def Request.range : Request β → Range
  | load k => k
  | store k _ => k

def Cache.serve (s : Cache β) : Request β → Cache β
  | .load k => s.put k (some ((s.buf k).getD ⟨s.disk, false⟩))
  | .store k data => s.put k (some ⟨data, true⟩)

/-- A buffer is written back. -/
def Cache.flush (s : Cache β) (k : Range) (b : Buffer β) : Cache β :=
  { s.put k (some { b with dirty := false }) with
    disk := fun x => if k.Has x then b.data x else s.disk x }

/-- What the cache does on its own: it writes a buffer back, or drops a clean one. -/
inductive Background : Cache β → Cache β → Prop
  | flush {s : Cache β} {k : Range} {b : Buffer β} (h : s.buf k = some b) :
      Background s (s.flush k b)
  | drop {s : Cache β} {k : Range} {b : Buffer β} (h : s.buf k = some b) (hb : b.dirty = false) :
      Background s (s.put k none)

/-- The requests are served in order, with anything the cache does in between. -/
inductive Run : List (Request β) → Cache β → Cache β → Prop
  | done (s : Cache β) : Run [] s s
  | background {l : List (Request β)} {s t u : Cache β} (h : Background s t) (r : Run l t u) :
      Run l s u
  | serve {l : List (Request β)} {s u : Cache β} (q : Request β) (r : Run l (s.serve q) u) :
      Run (q :: l) s u

/-! ## The memory -/

/-- The memory after a request. -/
def Request.apply (m : Nat → β) : Request β → Nat → β
  | load _ => m
  | store k data => fun b => if k.Has b then data b else m b

theorem Request.apply_store {k : Range} {b : Nat} (hb : k.Has b) (data m : Nat → β) :
    (Request.store k data).apply m b = data b := if_pos hb

/-- The cache stands for the memory `m`, with ranges that satisfy `P` only. -/
structure Holds (P : Range → Prop) (s : Cache β) (m : Nat → β) : Prop where
  used : ∀ k b, s.buf k = some b → P k
  buf : ∀ k b, s.buf k = some b → ∀ x, k.Has x → b.data x = m x
  disk : ∀ x, (∀ k b, s.buf k = some b → k.Has x → b.dirty = false) → s.disk x = m x

variable {P : Range → Prop} {s t : Cache β} {m : Nat → β}

/-- A cache without buffers. -/
theorem Holds.empty (P : Range → Prop) (disk : Nat → β) : Holds P ⟨disk, fun _ => none⟩ disk :=
  ⟨nofun, nofun, fun _ _ => rfl⟩

/-- A request sees the memory. -/
theorem Holds.read (h : Holds P s m) (hP : ∀ k l, P k → P l → k.Fits l) {k : Range} (hk : P k)
    {x : Nat} (hx : k.Has x) : s.read k x = m x := by
  unfold Cache.read
  cases hb : s.buf k with
  | some b => exact h.buf k b hb x hx
  | none =>
    refine h.disk x fun l b hl hlx => ?_
    -- another buffer with the block would be of the same range
    rcases hP k l hk (h.used l b hl) with rfl | hapart
    · rw [hb] at hl
      cases hl
    · exact absurd hlx (hapart x hx)

theorem Holds.serve (h : Holds P s m) (hP : ∀ k l, P k → P l → k.Fits l) {q : Request β}
    (hq : P q.range) : Holds P (s.serve q) (q.apply m) := by
  cases q with
  | load k =>
    have hread := @Holds.read β P s m h hP k hq
    have hbuf : ∀ x, k.Has x → ((s.buf k).getD ⟨s.disk, false⟩).data x = m x := fun x hx => by
      rw [← hread hx, Cache.read]
      cases s.buf k <;> rfl
    refine ⟨fun l b hl => ?_, fun l b hl x hx => ?_, fun x hx => ?_⟩
    · by_cases e : l = k
      · exact e ▸ hq
      · refine h.used l b ?_
        rwa [Cache.serve, Cache.put_ne _ e] at hl
    · by_cases e : l = k
      · subst e
        rw [Cache.serve, Cache.put_self] at hl
        cases hl
        exact hbuf x hx
      · rw [Cache.serve, Cache.put_ne _ e] at hl
        exact h.buf l b hl x hx
    · refine h.disk x fun l b hl hlx => hx l b ?_ hlx
      by_cases e : l = k
      · subst e
        rw [Cache.serve, Cache.put_self, hl]
        rfl
      · rwa [Cache.serve, Cache.put_ne _ e]
  | store k data =>
    refine ⟨fun l b hl => ?_, fun l b hl x hx => ?_, fun x hx => ?_⟩
    · by_cases e : l = k
      · exact e ▸ hq
      · refine h.used l b ?_
        rwa [Cache.serve, Cache.put_ne _ e] at hl
    · by_cases e : l = k
      · subst e
        rw [Cache.serve, Cache.put_self] at hl
        cases hl
        exact (if_pos hx).symm
      · rw [Cache.serve, Cache.put_ne _ e] at hl
        have hapart := (hP l k (h.used l b hl) hq).resolve_left e
        rw [h.buf l b hl x hx]
        exact (if_neg (hapart x hx)).symm
    · have hkx : ¬ k.Has x := fun hkx => by
        have hdirty := hx k ⟨data, true⟩ (Cache.put_self ..) hkx
        cases hdirty
      have hm : (Request.store k data).apply m x = m x := if_neg hkx
      rw [hm]
      refine h.disk x fun l b hl hlx => hx l b ?_ hlx
      have e : l ≠ k := fun e => hkx (e ▸ hlx)
      rwa [Cache.serve, Cache.put_ne _ e]

theorem Holds.background (h : Holds P s m) (hb : Background s t) : Holds P t m := by
  cases hb with
  | @flush k b hk =>
    have hbuf : (s.flush k b).buf = (s.put k (some { b with dirty := false })).buf := rfl
    refine ⟨fun l c hl => ?_, fun l c hl x hx => ?_, fun x hx => ?_⟩
    · by_cases e : l = k
      · exact e ▸ h.used k b hk
      · rw [hbuf, Cache.put_ne _ e] at hl
        exact h.used l c hl
    · by_cases e : l = k
      · subst e
        rw [hbuf, Cache.put_self] at hl
        cases hl
        exact h.buf l b hk x hx
      · rw [hbuf, Cache.put_ne _ e] at hl
        exact h.buf l c hl x hx
    · show (if k.Has x then b.data x else s.disk x) = m x
      by_cases hkx : k.Has x
      · rw [if_pos hkx]
        exact h.buf k b hk x hkx
      · rw [if_neg hkx]
        refine h.disk x fun l c hl hlx => hx l c ?_ hlx
        have e : l ≠ k := fun e => hkx (e ▸ hlx)
        rwa [hbuf, Cache.put_ne _ e]
  | @drop k b hk hclean =>
    refine ⟨fun l c hl => ?_, fun l c hl x hx => ?_, fun x hx => ?_⟩
    · by_cases e : l = k
      · exact e ▸ h.used k b hk
      · exact h.used l c (by rwa [Cache.put_ne _ e] at hl)
    · by_cases e : l = k
      · rw [e, Cache.put_self] at hl
        cases hl
      · exact h.buf l c (by rwa [Cache.put_ne _ e] at hl) x hx
    · refine h.disk x fun l c hl hlx => ?_
      by_cases e : l = k
      · subst e
        obtain rfl := Option.some.inj (hk.symm.trans hl)
        exact hclean
      · refine hx l c ?_ hlx
        rwa [Cache.put_ne _ e]

/-- The cache goes on standing for the memory that the requests make. -/
theorem Holds.run (hP : ∀ k l, P k → P l → k.Fits l) {l : List (Request β)} (r : Run l s t) :
    ∀ {m : Nat → β}, Holds P s m → (∀ q ∈ l, P q.range) → Holds P t (l.foldl Request.apply m) := by
  induction r with
  | done s => exact fun h _ => h
  | background hb _ ih => exact fun h hl => ih (h.background hb) hl
  | serve q _ ih =>
    exact fun h hl => ih (h.serve hP (hl q List.mem_cons_self))
      fun q hq => hl q (List.mem_cons_of_mem _ hq)

/-- Stores elsewhere leave a block alone. -/
theorem foldl_apply_away {l : List (Request β)} {x : Nat}
    (h : ∀ k data, .store k data ∈ l → ¬ k.Has x) (m : Nat → β) : l.foldl Request.apply m x = m x := by
  induction l generalizing m with
  | nil => rfl
  | cons q l ih =>
    rw [List.foldl_cons, ih fun k data hq => h k data (List.mem_cons_of_mem _ hq)]
    cases q with
    | load k => rfl
    | store k data => exact if_neg (h k data List.mem_cons_self)

/-- Once a range is in the cache, requests for other ranges do not reach its buffer. -/
theorem exists_stale {k : Range} {l : List (Request β)} (hl : ∀ q ∈ l, q.range ≠ k)
    (disk : Nat → β) : ∃ s, Run (.load k :: l) ⟨disk, fun _ => none⟩ s ∧ s.read k = disk := by
  have hrun : ∀ (l : List (Request β)) (s : Cache β), (∀ q ∈ l, q.range ≠ k) → s.read k = disk →
      s.buf k ≠ none → ∃ t, Run l s t ∧ t.read k = disk := by
    intro l
    induction l with
    | nil => exact fun s _ h _ => ⟨s, .done s, h⟩
    | cons q l ih =>
      intro s hl h hsome
      have hbuf : (s.serve q).buf k = s.buf k := by
        have hne := (hl q List.mem_cons_self).symm
        cases q with
        | load l => exact Cache.put_ne _ hne _
        | store l data => exact Cache.put_ne _ hne _
      have hread : (s.serve q).read k = disk := by
        rw [← h, Cache.read, Cache.read, hbuf]
        cases hs : s.buf k with
        | none => exact absurd hs hsome
        | some b => rfl
      obtain ⟨t, r, ht⟩ := ih (s.serve q) (fun q hq => hl q (List.mem_cons_of_mem _ hq)) hread
        (by rwa [hbuf])
      exact ⟨t, .serve q r, ht⟩
  have hload : (Cache.serve ⟨disk, fun _ => none⟩ (.load k)).buf k = some ⟨disk, false⟩ :=
    Cache.put_self ..
  obtain ⟨s, r, hs⟩ := hrun l (Cache.serve ⟨disk, fun _ => none⟩ (.load k)) hl
    (by rw [Cache.read, hload]) (by rw [hload]; exact nofun)
  exact ⟨s, .serve _ r, hs⟩

end BlockCache
