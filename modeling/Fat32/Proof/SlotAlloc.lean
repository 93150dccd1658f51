import Mathlib
import Fat32.Lib.FirstFit
import Fat32.Proof.Edit
import Fat32.Proof.FailedExtend
import Fat32.Proof.Walk

/-!
# Room for an entry

`fat32_alloc_fdentry` finds the first slots in a row that are free: deleted, or not in use yet
(`allocSlots_first`). For slots behind the directory it appends cleared clusters, as many as a 32-bit
computation tells (`growClusters`). A directory without a cluster gets one, and the place behind `..`,
whether or not there is room for the slots.
-/

namespace Fat32

open Bytes Exec Prog Linked FirstFit

variable {fsi : Fsi} {cs : List Nat} {s t : VnSt} {v v' : Vol} {num i n k : Nat} {D l : List Slot} {run : Run}

/-! ## The search in a list of slots -/

/-- `allocCluster` on a list of slots, the first of which has the index `i`. -/
def allocSlots (num : Nat) : Nat → List Slot → Run → AllocStep
  | _, [], run => .more run
  | i, x :: l, run =>
    match allocSlot num (u32 (32 * i)) x.first run with
    | .more run => allocSlots num (i + 1) l run
    | r => r

theorem allocSlots_append (num : Nat) (l m : List Slot) : ∀ (i : Nat) (run : Run),
    allocSlots num i (l ++ m) run = match allocSlots num i l run with
      | .more run => allocSlots num (i + l.length) m run
      | r => r := by
  induction l with
  | nil => exact fun _ _ => rfl
  | cons x l ih =>
    intro i run
    rw [List.cons_append, allocSlots, allocSlots]
    cases allocSlot num (u32 (32 * i)) x.first run with
    | full start => rfl
    | last run => rfl
    | more run =>
      dsimp only
      rw [ih, List.length_cons, show i + (l.length + 1) = i + 1 + l.length by omega]

theorem allocCluster_slots (hg : Geometry fsi) (num q : Nat) (data : Nat → UInt8) (n : Nat) :
    ∀ (i : Nat) (run : Run), slotsPer fsi ≤ i + n →
      allocCluster fsi num (u32 (32 * q)) data n (32 * i) run =
        allocSlots num (q + i) ((clusterSlots fsi data).drop i) run := by
  induction n with
  | zero =>
    intro i run h
    rw [clusterSlots_drop_all data (by omega)]
    rfl
  | succ n ih =>
    intro i run h
    have hb := bpc_slots hg
    rw [allocCluster]
    by_cases hi : i < slotsPer fsi
    · have hoff : u32 (u32 (32 * q) + 32 * i) = u32 (32 * (q + i)) := by
        simp only [u32]
        omega
      rw [if_pos (by omega), clusterSlots_drop data hi, allocSlots, hoff]
      have hfirst : (slotAt data (32 * i)).first = data (32 * i) := rfl
      rw [hfirst]
      cases allocSlot num (u32 (32 * (q + i))) (data (32 * i)) run with
      | full start => rfl
      | last run => rfl
      | more run => exact ih (i + 1) run (by omega)
    · rw [if_neg (by omega), clusterSlots_drop_all data (by omega)]
      rfl

/-- A slot that an entry may take: it is deleted, or the end of the directory is not behind it. -/
def FreeAt (D : List Slot) (k : Nat) : Prop :=
  (∃ x, D[k]? = some x ∧ x.first = lfnDeleted) ∨ ∃ j ≤ k, ∀ x, D[j]? = some x → x.first = 0

/-- The `num` slots from `k` on are deleted ones. -/
def AllDeleted (D : List Slot) (num k : Nat) : Prop :=
  Window (fun k => ∃ x, D[k]? = some x ∧ x.first = lfnDeleted) num k

/-- What the search finds: the first fit, as an offset of 32 bits. -/
structure Finds (D : List Slot) (num k start : Nat) : Prop where
  first : First (FreeAt D) num k
  start : start = u32 (32 * k)

/-- The state of the search in front of slot `i`. -/
structure Searching (D : List Slot) (num i : Nat) (run : Run) : Prop where
  trail : Trail (FreeAt D) num i run.free
  short : run.free < num
  start : run.free ≠ 0 → run.start = u32 (32 * (i - run.free))
  opened : Open D i

/-- What the search tells when it ends in a cluster or with the directory. -/
def AllocStep.Ends (D : List Slot) (num : Nat) : AllocStep → Prop
  | .full start => ∃ k, Finds D num k start ∧ AllDeleted D num k
  | .last run => ∃ k, Finds D num k run.start ∧ ¬ AllDeleted D num k
  | .more run => Searching D num D.length run

/-- Slots before the end that are neither. -/
theorem not_freeAt {x : Slot} (hx : D[i]? = some x) (h0 : x.first ≠ 0) (hd : x.first ≠ lfnDeleted)
    (hopen : Open D i) : ¬ FreeAt D i := by
  rintro (⟨y, hy, hdel⟩ | ⟨j, hj, hend⟩)
  · obtain rfl := Option.some.inj (hx.symm.trans hy)
    exact hd hdel
  · obtain ⟨hlt, -⟩ := List.getElem?_eq_some_iff.mp hx
    have hy : D[j]? = some D[j] := List.getElem?_eq_getElem (by omega)
    rcases hj.lt_or_eq with hji | rfl
    · exact hopen j hji _ hy (hend _ hy)
    · exact h0 (hend x hx)

/-- The search is a first fit. -/
theorem allocSlots_first : ∀ {i : Nat} {run : Run} {l : List Slot}, D.drop i = l → i ≤ D.length →
    Searching D num i run → (allocSlots num i l run).Ends D num := by
  intro i run l
  induction l generalizing i run with
  | nil =>
    intro hdrop hi h
    have hlen := congrArg List.length hdrop
    rw [List.length_drop, List.length_nil] at hlen
    obtain rfl : i = D.length := by omega
    exact h
  | cons x l ih =>
    intro hdrop hi h
    have hx : D[i]? = some x := by
      rw [← List.head?_drop, hdrop]
      rfl
    have hrest : D.drop (i + 1) = l := by
      rw [← List.drop_drop, hdrop]
      rfl
    obtain ⟨hlt, -⟩ := List.getElem?_eq_some_iff.mp hx
    obtain ⟨htrail, hshort, hstart, hopen⟩ := h
    have hle := htrail.le
    have hopen' (h0 : x.first ≠ 0) : Open D (i + 1) := fun k hk y hy => by
      rcases Nat.lt_succ_iff_lt_or_eq.mp hk with hk | rfl
      · exact hopen k hk y hy
      · exact Option.some.inj (hx.symm.trans hy) ▸ h0
    -- where the run begins
    have hbegin : (if run.free = 0 then u32 (32 * i) else run.start) = u32 (32 * (i - run.free)) := by
      by_cases hz : run.free = 0
      · rw [if_pos hz, hz, Nat.sub_zero]
      · rw [if_neg hz, hstart hz]
    rw [allocSlots, allocSlot, hbegin]
    by_cases h0 : x.first = 0
    · rw [if_pos h0]
      refine ⟨i - run.free, ⟨htrail.rest fun k hk => .inr ⟨i, hk, fun y hy => ?_⟩, rfl⟩, fun hall => ?_⟩
      · rwa [Option.some.inj (hy.symm.trans hx)]
      · obtain ⟨y, hy, hdel⟩ := hall run.free hshort
        rw [Nat.sub_add_cancel hle] at hy
        obtain rfl := Option.some.inj (hx.symm.trans hy)
        rw [h0] at hdel
        exact absurd hdel (by decide)
    rw [if_neg h0]
    by_cases hdel : x.first = lfnDeleted
    · have htrail' := htrail.free_next (.inl ⟨x, hx, hdel⟩)
      rw [if_pos hdel]
      by_cases hfull : run.free + 1 = num
      · rw [if_pos hfull]
        rw [hfull] at htrail'
        have hk : i + 1 - num = i - run.free := by omega
        have hfirst := htrail'.full
        rw [hk] at hfirst
        refine ⟨i - run.free, ⟨hfirst, rfl⟩, fun m hm => ?_⟩
        -- a free slot before the end is a deleted one
        rcases htrail'.free (i - run.free + m) (by omega) (by omega) with hd | ⟨j, hj, hend⟩
        · exact hd
        · have hy : D[j]? = some D[j] := List.getElem?_eq_getElem (by omega)
          exact absurd (hend _ hy) (hopen' h0 j (by omega) _ hy)
      · rw [if_neg hfull]
        refine ih hrest (by omega) ⟨htrail', ?_, fun _ => ?_, hopen' h0⟩
        · show run.free + 1 < num
          omega
        · show u32 (32 * (i - run.free)) = u32 (32 * (i + 1 - (run.free + 1)))
          rw [Nat.add_sub_add_right]
    · rw [if_neg hdel]
      exact ih hrest (by omega) ⟨htrail.used_next hshort (not_freeAt hx h0 hdel hopen),
        show 0 < num by omega, fun h => absurd rfl h, hopen' h0⟩

/-! ## The search on the disk -/

/-- How the loop over the clusters `cs` ends after such a search. -/
def allocEnd (fsi : Fsi) (cs : List Nat) : AllocStep → Except Nat AllocEnd
  | .full start => .error start
  | .last run => .ok ⟨cs.getLastD 0, u32 (fsi.bytesPerCluster * cs.length), run, true⟩
  | .more run => .ok ⟨cs.getLastD 0, u32 (fsi.bytesPerCluster * cs.length), run, false⟩

theorem getLastD_eq {c q : Nat} (hc : cs[q]? = some c) (hlen : cs.length = q + 1) : cs.getLastD 0 = c := by
  rw [List.getLastD_eq_getLast?, List.getLast?_eq_getElem?, hlen, Nat.add_sub_cancel, hc]
  rfl

theorem allocLoop_slots (hk : Reliable fsi.kernel) (hg : Geometry fsi) (num : Nat) {a : Nat} (n : Nat) :
    ∀ {q c : Nat} {run : Run} {found : Bool} {v : Vol}, Path fsi (view fsi v.disk).fat a cs →
      cs[q]? = some c → cs.length ≤ q + n →
      ∃ v', allocLoop fsi num n c (u32 (fsi.bytesPerCluster * q)) run found v =
        (.ok (allocEnd fsi cs (if found then .last run else
          allocSlots num (q * slotsPer fsi) ((readSlots fsi cs v).drop (q * slotsPer fsi)) run)), v') ∧
        Same v v' := by
  induction n with
  | zero =>
    intro q c run found v _ hc hlen
    obtain ⟨hq, -⟩ := List.getElem?_eq_some_iff.mp hc
    omega
  | succ n ih =>
    intro q c run found v hl hc hlen
    have hper := bpc_slots hg
    have hcur : u32 (u32 (fsi.bytesPerCluster * q) + fsi.bytesPerCluster) = u32 (fsi.bytesPerCluster * (q + 1)) := by
      rw [Nat.mul_succ, u32, u32, u32]
      omega
    -- the cluster, then the next one
    have hstep {v1 : Vol} (s1 : Same v v1) (run : Run) (found : Bool) {k : Except Errno Nat → FsM (Except Nat AllocEnd)}
        (herr : ∀ e, k (.error e) =
          pure (.ok ⟨c, u32 (u32 (fsi.bytesPerCluster * q) + fsi.bytesPerCluster), run, found⟩))
        (hok : ∀ d, k (.ok d) =
          allocLoop fsi num n d (u32 (u32 (fsi.bytesPerCluster * q) + fsi.bytesPerCluster)) run found) : ∃ v',
        (attempt (nextCluster fsi c {}) >>= k) v1 =
          (.ok (allocEnd fsi cs (if found then .last run else allocSlots num ((q + 1) * slotsPer fsi)
            ((readSlots fsi cs v).drop ((q + 1) * slotsPer fsi)) run)), v') ∧ Same v v' := by
      rw [hcur] at herr hok
      rcases hl.step hc with ⟨hnone, hlast⟩ | ⟨d, hd, hdi⟩
      · obtain ⟨e, v2, he, s2⟩ := nextCluster_none (v := v1) hk hg noAlloc (by rwa [s1.disk])
        refine ⟨v2, ?_, s1.trans s2⟩
        rw [bind_ok (attempt_err he), herr]
        have hdrop : (readSlots fsi cs v).drop ((q + 1) * slotsPer fsi) = [] :=
          List.drop_of_length_le (by rw [length_dirSlots, hlast])
        rw [hdrop, ← hlast]
        cases found with
        | true =>
          rw [if_pos rfl, allocEnd, getLastD_eq hc hlast]
          rfl
        | false =>
          rw [if_neg (by decide), allocSlots, allocEnd, getLastD_eq hc hlast]
          rfl
      · obtain ⟨v2, e2, s2⟩ := nextCluster_link (v := v1) hk hg (by rwa [s1.disk]) {}
        have s12 := s1.trans s2
        rw [bind_ok (attempt_ok e2), hok]
        obtain ⟨v3, e3, s3⟩ := @ih (q + 1) d run found v2
          (by rwa [s12.disk]) hdi (by omega)
        rw [readSlots_same s12] at e3
        exact ⟨v3, e3, s12.trans s3⟩
    rw [allocLoop]
    cases found with
    | true => exact hstep (.refl v) run true (fun _ => rfl) fun _ => rfl
    | false =>
      obtain ⟨v1, e1, s1⟩ := readCluster_bytes hk c v
      have hslots := allocCluster_slots hg num (q * slotsPer fsi) (clusterBytes fsi v.disk c) fsi.bytesPerCluster
        0 run (by omega)
      have hdrop : (dirSlots fsi _ cs).drop _ = _ :=
        dirSlots_drop_in (clusterBytes fsi v.disk) hc (Nat.zero_le (slotsPer fsi))
      have hoff : u32 (32 * (q * slotsPer fsi)) = u32 (fsi.bytesPerCluster * q) := by
        rw [hper, Nat.mul_assoc, Nat.mul_comm q]
      rw [Nat.mul_zero, Nat.add_zero, hoff, List.drop_zero] at hslots
      rw [Nat.add_zero, List.drop_zero] at hdrop
      have hread : (do
          let bp ← readCluster fsi c
          pure (allocCluster fsi num (u32 (fsi.bytesPerCluster * q)) bp.data fsi.bytesPerCluster 0 run) :
            FsM AllocStep) v =
          (.ok (allocSlots num (q * slotsPer fsi) (clusterSlots fsi (clusterBytes fsi v.disk c)) run), v1) := by
        rw [bind_ok e1, hslots]
        rfl
      have hlen : (clusterSlots fsi (clusterBytes fsi v.disk c)).length = slotsPer fsi := length_clusterSlots _
      rw [if_neg (by decide), if_neg (by decide), bind_ok hread, readSlots, hdrop, allocSlots_append, hlen]
      cases allocSlots num (q * slotsPer fsi) (clusterSlots fsi (clusterBytes fsi v.disk c)) run with
      | full start => exact ⟨v1, rfl, s1⟩
      | last run => exact hstep s1 run true (fun _ => rfl) fun _ => rfl
      | more run =>
        have hnext := @hstep v1 s1 run false
        rw [if_neg (by decide), readSlots, dirSlots_drop, Nat.succ_mul] at hnext
        exact hnext (fun _ => rfl) fun _ => rfl

/-- The cluster with which a chain ends. -/
theorem FatChain.last_fin {fat : Nat → Nat} {a c q : Nat} (h : FatChain fsi fat a cs) (hc : cs[q]? = some c)
    (hlen : cs.length = q + 1) : fatFin fsi fat c := by
  rcases h.step hc with ⟨hf, -⟩ | ⟨d, -, hd⟩
  · exact hf
  · obtain ⟨hlt, -⟩ := List.getElem?_eq_some_iff.mp hd
    omega

/-- A loop that succeeds has appended so many clusters. -/
theorem growLoop_ok (hk : Reliable fsi.kernel) (hg : Geometry fsi) {a : Nat} (n : Nat) :
    ∀ {c : Nat} {cs : List Nat} {v : Vol}, FatChain fsi (view fsi v.disk).fat a cs → c ∈ cs →
      fatFin fsi (view fsi v.disk).fat c → growLoop fsi n c v = (.ok (), v') →
      ∃ ext, ext.length = n ∧ Grown fsi a cs ext true v v' := by
  induction n with
  | zero =>
    intro c cs v hl _ _ h
    cases h
    exact ⟨[], rfl, .same hl (.refl _)⟩
  | succ n ih =>
    intro c cs v hl hc hf h
    rw [growLoop] at h
    obtain ⟨v1, ⟨e, -⟩ | ⟨r, e, g⟩⟩ := nextCluster_grown_end hk hg
      (rfl : ({ alloc := true, clear := true } : NcFlags).alloc = true) hl hc hf
    · rw [bind_err e] at h
      cases h
    · rw [bind_ok e] at h
      have hr : (cs ++ [r])[cs.length]? = some r := by
        rw [List.getElem?_append_right (Nat.le_refl _), Nat.sub_self]
        rfl
      obtain ⟨ext, hlen, g'⟩ := ih g.chain (List.mem_of_getElem? hr)
        (g.chain.last_fin hr (by rw [List.length_append]; rfl)) h
      exact ⟨[r] ++ ext, by rw [List.length_append, hlen, Nat.add_comm]; rfl, g.trans hg g'⟩

/-- The slots of a directory with appended cleared clusters. -/
theorem Grown.slots (hg : Geometry fsi) {a : Nat} {ext : List Nat} (g : Grown fsi a cs ext true v v') :
    ∃ Z, volSlots fsi (cs ++ ext) v' = volSlots fsi cs v ++ Z ∧ ∀ z ∈ Z, z.first = 0 := by
  have hnd := g.chain.nodup (fatEnds hg _)
  refine ⟨dirSlots fsi (view fsi v'.disk).data ext, ?_, fun z hz => ?_⟩
  · rw [volSlots, dirSlots_append]
    refine congrArg (· ++ _) (List.flatMap_congr fun c hc => ?_)
    rw [g.data c (.inl fun hce => (List.nodup_append.mp hnd).2.2 c hc c hce rfl)]
  · obtain ⟨c, hc, hz⟩ := List.mem_flatMap.mp hz
    rw [g.zero rfl c hc] at hz
    obtain ⟨i, -, rfl⟩ := List.mem_map.mp hz
    rfl

/-! ## Room -/

/-- A call that returned `offset` has made room: the `num` slots from there on are inside the
directory, which had the clusters `cs` and has `cs'`, and free; no slot was changed; and no more clusters
were added than the slots need. -/
structure RoomMade (fsi : Fsi) (cs cs' : List Nat) (num offset : Nat) (v v' : Vol) : Prop where
  aligned : offset % 32 = 0
  inside : offset / 32 + num ≤ (volSlots fsi cs' v').length
  free : Window (FreeAt (volSlots fsi cs' v')) num (offset / 32)
  kept : ∀ (k : Nat) (x : Slot), (volSlots fsi cs v)[k]? = some x → (volSlots fsi cs' v')[k]? = some x
  added : cs'.length = max cs.length (clustersFor fsi (32 * (offset / 32 + num)))

/-- The clusters that hold so many slots. -/
theorem clustersFor_slots (hg : Geometry fsi) {m : Nat} : clustersFor fsi (32 * n) ≤ m ↔ n ≤ m * slotsPer fsi := by
  have hper := bpc_slots hg
  have hpos := bpc_pos hg
  have hbytes : fsi.bytesPerCluster * m = 32 * (m * slotsPer fsi) := by
    rw [hper, Nat.mul_assoc, Nat.mul_comm m]
  rw [clustersFor, Nat.div_le_iff_le_mul_add_pred (show 0 < fsi.bytesPerCluster by omega), hbytes]
  omega

theorem freeAt_end (h : D.length ≤ k) : FreeAt D k :=
  .inr ⟨k, le_refl k, fun x hx => by
    rw [List.getElem?_eq_none h] at hx
    cases hx⟩

/-- The first fit begins in the directory or just behind it. -/
theorem first_le (h : First (FreeAt D) num k) : k ≤ D.length := by
  by_contra hk
  exact h.least D.length (by omega) fun m _ => freeAt_end (Nat.le_add_right _ _)

/-- Slots behind the directory are free until it has them, and then too. -/
theorem freeAt_append {Z : List Slot} (hZ : ∀ z ∈ Z, z.first = 0) : FreeAt D k → FreeAt (D ++ Z) k := by
  have hget {j : Nat} (hj : j < D.length) : (D ++ Z)[j]? = D[j]? := List.getElem?_append_left hj
  rintro (⟨x, hx, hdel⟩ | ⟨j, hj, hend⟩)
  · obtain ⟨hlt, -⟩ := List.getElem?_eq_some_iff.mp hx
    exact .inl ⟨x, by rw [hget hlt, hx], hdel⟩
  · refine .inr ⟨j, hj, fun y hy => ?_⟩
    by_cases hlt : j < D.length
    · rw [hget hlt] at hy
      exact hend y hy
    · rw [List.getElem?_append_right (not_lt.mp hlt)] at hy
      exact hZ y (List.mem_of_getElem? hy)

/-- What is free in a directory that has grown was free before. -/
theorem freeAt_kept {D' : List Slot} (hkept : ∀ (k : Nat) (x : Slot), D[k]? = some x → D'[k]? = some x) (hk : k < D.length)
    (h : FreeAt D' k) : FreeAt D k := by
  have hget {j : Nat} (hj : j < D.length) : D[j]? = some D[j] := List.getElem?_eq_getElem hj
  rcases h with ⟨x, hx, hdel⟩ | ⟨j, hj, hend⟩
  · obtain rfl := Option.some.inj ((hkept k _ (hget hk)).symm.trans hx)
    exact .inl ⟨_, hget hk, hdel⟩
  · refine .inr ⟨j, hj, fun y hy => hend y (hkept j y hy)⟩

/-- An offset that has lost its upper bits is not that of a fit. -/
theorem not_roomMade {cs' : List Nat} (hnum : num ≤ 21) (h : First (FreeAt (volSlots fsi cs v)) num k)
    (hwrap : 2 ^ 32 ≤ 32 * k) : ¬ RoomMade fsi cs cs' num (u32 (32 * k)) v v' := by
  intro hroom
  have hle := first_le h
  have hj : u32 (32 * k) / 32 + 2 ^ 27 ≤ k := by
    rw [u32]
    omega
  refine h.least _ (by omega) fun m hm => freeAt_kept hroom.kept (by omega) (hroom.free m hm)

/-- The slots of the first fit, in a directory that got `n` cleared clusters. -/
theorem roomMade_iff (hg : Geometry fsi) {cs' : List Nat} {Z : List Slot}
    (h : First (FreeAt (volSlots fsi cs v)) num k) (hlt : 32 * k < 2 ^ 32) (hlen : cs'.length = cs.length + n)
    (hslots : volSlots fsi cs' v' = volSlots fsi cs v ++ Z) (hZ : ∀ z ∈ Z, z.first = 0) :
    RoomMade fsi cs cs' num (u32 (32 * k)) v v' ↔
      cs.length + n = max cs.length (clustersFor fsi (32 * (k + num))) := by
  have hoff : u32 (32 * k) = 32 * k := Nat.mod_eq_of_lt hlt
  have hdiv : 32 * k / 32 = k := Nat.mul_div_cancel_left k (by decide)
  rw [hoff]
  constructor
  · intro hroom
    have hadd := hroom.added
    rw [hdiv] at hadd
    rw [← hlen, hadd]
  · intro hadd
    refine ⟨Nat.mul_mod_right 32 k, ?_, ?_, fun j x hx => ?_, ?_⟩
    · rw [hdiv, length_dirSlots, hlen, hadd]
      exact (clustersFor_slots hg).mp (Nat.le_max_right _ _)
    · rw [hdiv, hslots]
      exact h.window.mono fun m _ => freeAt_append hZ
    · obtain ⟨hjlt, -⟩ := List.getElem?_eq_some_iff.mp hx
      rw [hslots, List.getElem?_append_left hjlt, hx]
    · rw [hdiv, hlen, hadd]

/-- The clusters that are appended for `num` slots from `start` on to a directory of so many bytes. -/
def growClusters (fsi : Fsi) (bytes start num : Nat) : Nat :=
  if u32 (start + num * 32) > bytes then
    u32 (u32 (start + num * 32) - bytes + fsi.bytesPerCluster - 1) >>> fsi.clusterShift
  else 0

/-- What the search in a directory with the clusters `cs` comes to: deleted slots, or the place from which
on the directory may have to grow. -/
theorem allocLoop_finds (hk : Reliable fsi.kernel) (hg : Geometry fsi) (hfuel : cs.length ≤ fsi.kernel.fuel)
    (hnum : 0 < num) {a : Nat} (hl : FatChain fsi (view fsi v.disk).fat a cs) : ∃ r k v',
      allocLoop fsi num fsi.kernel.fuel a 0 {} false v = (.ok r, v') ∧ Same v v' ∧
      First (FreeAt (volSlots fsi cs v)) num k ∧
      (r = .error (u32 (32 * k)) ∧ AllDeleted (volSlots fsi cs v) num k ∨
        ¬ AllDeleted (volSlots fsi cs v) num k ∧ ∃ e, r = .ok e ∧ e.lastCluster = cs.getLastD 0 ∧
          e.offset = u32 (fsi.bytesPerCluster * cs.length) ∧
          (if ¬ e.found ∧ e.run.free = 0 then e.offset else e.run.start) = u32 (32 * k)) := by
  have h0 : cs[0]? = some a := by
    obtain ⟨m, rfl⟩ := hl.head_eq
    rfl
  obtain ⟨v', hrun, hs⟩ := @allocLoop_slots _ _ hk hg num _ fsi.kernel.fuel 0 a {} false v (hl.path hg) h0
    (hfuel.trans (Nat.le_add_left _ _))
  rw [Nat.mul_zero, if_neg (by decide), Nat.zero_mul, List.drop_zero, readSlots_eq hg hl.inRange] at hrun
  have hends := @allocSlots_first num (volSlots fsi cs v) 0 {} _ (List.drop_zero) (Nat.zero_le _)
    ⟨.start, hnum, fun h => absurd rfl h, fun _ hk => absurd hk (Nat.not_lt_zero _)⟩
  have hper := bpc_slots hg
  have hbytes : fsi.bytesPerCluster * cs.length = 32 * (volSlots fsi cs v).length := by
    rw [length_dirSlots, hper, Nat.mul_assoc, Nat.mul_comm (slotsPer fsi)]
  rcases hstep : allocSlots num 0 (volSlots fsi cs v) {} with start | run | run
  · rw [hstep] at hrun hends
    obtain ⟨k, ⟨hfirst, rfl⟩, hdel⟩ := hends
    exact ⟨_, k, v', hrun, hs, hfirst, .inl ⟨rfl, hdel⟩⟩
  · rw [hstep] at hrun hends
    obtain ⟨k, ⟨hfirst, hstart⟩, hdel⟩ := hends
    exact ⟨_, k, v', hrun, hs, hfirst, .inr ⟨hdel, _, rfl, rfl, rfl, (if_neg fun h => h.1 rfl).trans hstart⟩⟩
  · rw [hstep] at hrun hends
    obtain ⟨htrail, hshort, hstart, -⟩ := hends
    have hle := htrail.le
    refine ⟨_, (volSlots fsi cs v).length - run.free, v', hrun, hs, htrail.rest fun j hj => freeAt_end hj,
      .inr ⟨fun hall => ?_, _, rfl, rfl, rfl, ?_⟩⟩
    · obtain ⟨x, hx, -⟩ := hall run.free hshort
      rw [Nat.sub_add_cancel hle] at hx
      obtain ⟨hlt, -⟩ := List.getElem?_eq_some_iff.mp hx
      exact absurd hlt (Nat.lt_irrefl _)
    · dsimp only
      by_cases hz : run.free = 0
      · rw [if_pos ⟨by decide, hz⟩, hz, Nat.sub_zero, hbytes]
      · rw [if_neg fun h => hz h.2, hstart hz]

/-! ## A directory without a cluster -/

/-- The entry `.` or `..` of a directory. -/
def dotEntry (t : FatTime) (name : Fin 11 → UInt8) (cluster : Nat) : Slot := Dirent83.toSlot {
  name := name
  attr := attrDirectory
  createDate := t.date
  createTime := t.time
  createTimeTenth := UInt8.ofNat t.tenths
  writeDate := t.date
  writeTime := t.time
  lastAccessDate := t.date
  firstClusterHi := u16 (cluster >>> 16)
  firstClusterLo := cluster &&& 0xFFFF }

/-- The slots of a new directory at `r`. -/
def newDirSlots (fsi : Fsi) (t : FatTime) (r parent : Nat) : List Slot :=
  ((List.replicate (slotsPer fsi) fun _ => 0).set 0 (dotEntry t dotName r)).set 1
    (dotEntry t dotdotName (if parent = fsi.rootCluster then 0 else parent))

/-- A new directory has two entries, and no others. -/
theorem initDir_made (hk : Reliable fsi.kernel) (hg : Geometry fsi) {r : Nat}
    (hl : FatChain fsi (view fsi v.disk).fat r [r]) (parent : Nat) : ∃ t v',
      initDir fsi r parent v = (.ok (), v') ∧ Edited fsi [r] (newDirSlots fsi t r parent) v v' := by
  have hr : InRange fsi r := hl.inRange r (List.mem_singleton_self r)
  have hper := bpc_slots hg
  have hpos := bpc_pos hg
  obtain ⟨v1, e1, hset, -, -⟩ := clearCluster_ok hg hr v
  have hw := hset.view hg hr
  have hslots1 : volSlots fsi [r] v1 = List.replicate (slotsPer fsi) fun _ => 0 := by
    have hzero : (view fsi v1.disk).data r = fun _ => 0 := by
      rw [hw, View.setData_same]
      funext o
      split <;> rfl
    rw [volSlots, dirSlots_cons, dirSlots_nil, List.append_nil, hzero]
    refine List.eq_replicate_iff.mpr ⟨length_clusterSlots _, fun x hx => ?_⟩
    obtain ⟨i, -, rfl⟩ := List.mem_map.mp hx
    rfl
  have h1 : Edited fsi [r] (List.replicate (slotsPer fsi) fun _ => 0) v v1 := by
    refine ⟨by rw [hw]; rfl, fun c hc => ?_, hslots1⟩
    rw [hw]
    exact View.setData_ne _ _ (ne_of_mem_of_not_mem (List.mem_singleton_self r) hc).symm
  -- the two entries
  have hwrite {w : Vol} {l : List Slot} (E : Edited fsi [r] l v w) {i : Nat} (hi : i < 2) (d : Slot) :
      ∃ w', writeFdentry fsi r (32 * i) d w = (.ok (), w') ∧ Edited fsi [r] (l.set i d) v w' := by
    obtain ⟨w', e, E'⟩ := writeFdentry_slots hk hg (E.chain hl) (i := i)
      (by rw [length_dirSlots, List.length_singleton]; omega) d
    rw [E.slots] at E'
    exact ⟨w', e, E.trans E'⟩
  have hboth (w : Vol) (hs : Same v1 w) (d d' : Slot) : ∃ v',
      (do
        writeFdentry fsi r 0 d
        writeFdentry fsi r 32 d' : FsM Unit) w = (.ok (), v') ∧
      Edited fsi [r] (((List.replicate (slotsPer fsi) fun _ => 0).set 0 d).set 1 d') v v' := by
    have hw1 : Edited fsi [r] (List.replicate (slotsPer fsi) fun _ => 0) v w := by
      have E := h1.trans (Edited.of_same hs)
      rwa [h1.slots] at E
    obtain ⟨v2, e2, E2⟩ := hwrite hw1 (i := 0) (by decide) d
    obtain ⟨v3, e3, E3⟩ := hwrite E2 (i := 1) (by decide) d'
    exact ⟨v3, (bind_ok e2).trans e3, E3⟩
  obtain ⟨v2, hclock, s2⟩ : ∃ v2, nanotime fsi v1 = (.ok (fsi.kernel.nanotime v1.io.nclock), v2) ∧ Same v1 v2 :=
    ⟨_, rfl, rfl, rfl, rfl⟩
  unfold initDir
  rw [bind_ok e1, bind_ok hclock]
  exact ⟨unixToFatTime (fsi.kernel.nanotime v1.io.nclock), hboth v2 s2 _ _⟩

theorem initDir_slots (hk : Reliable fsi.kernel) (hg : Geometry fsi) {r : Nat}
    (hl : FatChain fsi (view fsi v.disk).fat r [r]) (parent : Nat) : ∃ d d' v',
      initDir fsi r parent v = (.ok (), v') ∧
      Edited fsi [r] (((List.replicate (slotsPer fsi) fun _ => 0).set 0 d).set 1 d') v v' := by
  obtain ⟨_, v', e, E⟩ := initDir_made hk hg hl parent
  exact ⟨_, _, v', e, E⟩

/-- A directory that got its first cluster. -/
structure FirstCluster (fsi : Fsi) (t : VnSt) : Prop where
  chain : FatChain fsi (view fsi t.vol.disk).fat t.fv.cluster [t.fv.cluster]
  slots : ∃ d d', volSlots fsi [t.fv.cluster] t.vol =
    ((List.replicate (slotsPer fsi) fun _ => 0).set 0 d).set 1 d'

theorem allocFirst_ok (hk : Reliable fsi.kernel) (hg : Geometry fsi) {offset : Nat}
    (h : allocFirst fsi s = (.ok offset, t)) : offset = 64 ∧ FirstCluster fsi t := by
  have hrun : WP (allocFirst fsi) s fun r t => ∀ offset, r = .ok offset → offset = 64 ∧ FirstCluster fsi t := by
    have hfail (e : Errno) (r : Nat) (t : VnSt) : WP (do
          let _ ← attempt (onVol (freeClusters fsi r true))
          fail e : FvM Nat) t fun r t => ∀ offset, r = .ok offset → offset = 64 ∧ FirstCluster fsi t :=
      .bind (R := fun _ _ => True) (.of_run (Prod.mk.eta).symm trivial)
        (fun _ _ _ => .of_run (fail_run _ _) fun _ h => nomatch h) (fun _ _ _ _ h => nomatch h) fun _ _ _ h => nomatch h
    unfold allocFirst
    obtain ⟨v1, ⟨e1, -⟩ | ⟨r, e1, A⟩⟩ :=
      nextCluster_grown_zero hk hg (rfl : ({ alloc := true, clear := true } : NcFlags).alloc = true) s.vol
    · exact .err_bind (onVol_run e1) fun _ h => nomatch h
    · refine .ok_bind (onVol_run e1) (.get_bind (.ite (fun _ => hfail _ _ _) fun _ => ?_))
      have hl : FatChain fsi (view fsi v1.disk).fat r [r] := A.grown_zero.chain
      obtain ⟨d, d', v2, e2, E⟩ := initDir_slots hk hg hl s.fv.parentCluster
      refine .ok_bind (attempt_ok (onVol_run e2)) (.ok_bind (modifyFv_run _ _) (.of_run (pure_run _ _) fun o ho => ?_))
      exact ⟨(Out.ok.inj ho).symm, E.chain hl, d, d', E.slots⟩
  unfold WP at hrun
  rw [h] at hrun
  exact hrun offset rfl

/-! ## The whole call -/

/-- A call in a directory with a cluster: the first fit, and the clusters appended. -/
theorem allocFdentry_grows (hk : Reliable fsi.kernel) (hg : Geometry fsi) (hfuel : cs.length ≤ fsi.kernel.fuel)
    (hnum : 0 < num) (hl : FatChain fsi (view fsi s.vol.disk).fat s.fv.cluster cs) {offset : Nat}
    (h : allocFdentry fsi num s = (.ok offset, t)) : ∃ k ext, First (FreeAt (volSlots fsi cs s.vol)) num k ∧
      offset = u32 (32 * k) ∧ t.fv = s.fv ∧ Grown fsi s.fv.cluster cs ext true s.vol t.vol ∧
      (AllDeleted (volSlots fsi cs s.vol) num k ∧ ext = [] ∨ ¬ AllDeleted (volSlots fsi cs s.vol) num k ∧
        ext.length = growClusters fsi (u32 (fsi.bytesPerCluster * cs.length)) (u32 (32 * k)) num) := by
  have hc0 : s.fv.cluster ≠ 0 := FatChain.head_ne_zero hl
  obtain ⟨r, k, v1, hrun, hs, hfirst, hr⟩ := allocLoop_finds hk hg hfuel hnum hl
  have hall : WP (allocFdentry fsi num) s fun r t => ∀ offset, r = .ok offset → ∃ k ext,
      First (FreeAt (volSlots fsi cs s.vol)) num k ∧
      offset = u32 (32 * k) ∧ t.fv = s.fv ∧ Grown fsi s.fv.cluster cs ext true s.vol t.vol ∧
      (AllDeleted (volSlots fsi cs s.vol) num k ∧ ext = [] ∨ ¬ AllDeleted (volSlots fsi cs s.vol) num k ∧
        ext.length = growClusters fsi (u32 (fsi.bytesPerCluster * cs.length)) (u32 (32 * k)) num) := by
    unfold allocFdentry
    refine .get_bind (.ite (fun h0 => absurd h0 hc0) fun _ => .on (.ok_bind hrun ?_))
    rcases hr with ⟨rfl, hdel⟩ | ⟨hdel, e, rfl, hlast, hoff, hstart⟩
    · exact .of_run rfl fun o ho => ⟨k, [], hfirst, (Out.ok.inj ho).symm, rfl, .same hl hs, .inl ⟨hdel, rfl⟩⟩
    · dsimp only
      rw [hstart, hoff, hlast]
      have hpos : 0 < cs.length := List.length_pos_of_mem hl.head_mem
      have hc : cs[cs.length - 1]? = some (cs.getLastD 0) := by
        rw [List.getLastD_eq_getLast?, List.getLast?_eq_getElem?, List.getElem?_eq_getElem (by omega)]
        rfl
      have hl1 : FatChain fsi (view fsi v1.disk).fat s.fv.cluster cs := by rwa [hs.disk]
      have hfin := hl1.last_fin hc (by omega)
      refine .ite (fun hgt => ?_) fun hle => ?_
      · refine .bind (R := fun r v2 => r = .ok () → ∃ ext, ext.length = _ ∧ Grown fsi s.fv.cluster cs ext true v1 v2)
          (.of_run (Prod.mk.eta).symm fun hr => growLoop_ok hk hg _ hl1 (List.mem_of_getElem? hc) hfin (Prod.ext hr rfl))
          (fun _ v2 hR => ?_) (fun _ _ _ _ h => nomatch h) fun _ _ _ h => nomatch h
        obtain ⟨ext, hlen, g⟩ := hR rfl
        refine .of_run (pure_run _ _) fun o ho => ?_
        refine ⟨k, ext, hfirst, (Out.ok.inj ho).symm, rfl, .of_same hs g, .inr ⟨hdel, ?_⟩⟩
        rw [hlen, growClusters, if_pos hgt]
      · refine .of_run (pure_run _ _) fun o ho => ?_
        refine ⟨k, [], hfirst, (Out.ok.inj ho).symm, rfl, .same hl hs, .inr ⟨hdel, ?_⟩⟩
        rw [growClusters, if_neg hle]
        rfl
  unfold WP at hall
  rw [h] at hall
  exact hall offset rfl

/-! ## When there is room -/

/-- The clusters needed by slots that end at the byte `e`, in a directory of `b` bytes, come out right when
they are computed with 32 bits: both are below 4 GiB; or the directory is not, and the slots end behind it,
or in front of its end modulo 4 GiB, or the number of bytes to add is so near to 4 GiB that the sum with a
cluster begins again at 0. -/
def Measured (fsi : Fsi) (b e : Nat) : Prop :=
  b < 2 ^ 32 ∧ e < 2 ^ 32 ∨
    2 ^ 32 ≤ b ∧ (b < e ∨ u32 e ≤ u32 b ∨ u32 b + 2 ^ 32 < u32 e + fsi.bytesPerCluster)

theorem growClusters_iff (hg : Geometry fsi) (hb : fsi.bytesPerCluster < 2 ^ 32) (hn : 0 < n) (hnum : num ≤ 21)
    (hlt : 32 * k < 2 ^ 32) (hle : 32 * k ≤ fsi.bytesPerCluster * n) :
    n + growClusters fsi (u32 (fsi.bytesPerCluster * n)) (u32 (32 * k)) num =
        max n (clustersFor fsi (32 * (k + num))) ↔
      Measured fsi (fsi.bytesPerCluster * n) (32 * (k + num)) := by
  have hpos := bpc_pos hg
  have hhalf : fsi.bytesPerCluster ≤ 2 ^ 31 := by
    rw [bpc_eq hg] at hb ⊢
    have hshift := (Nat.pow_lt_pow_iff_right (by decide)).mp hb
    exact Nat.pow_le_pow_right (by decide) (by omega)
  have hfew : 32 * (k + num) ≤ fsi.bytesPerCluster * n + 672 := by omega
  have hone : fsi.bytesPerCluster ≤ fsi.bytesPerCluster * n := Nat.le_mul_of_pos_right _ hn
  have hend : u32 (u32 (32 * k) + num * 32) = u32 (32 * (k + num)) := by
    rw [u32, u32, u32, Nat.mod_add_mod, Nat.mul_add, Nat.mul_comm num]
  have hfor : clustersFor fsi (32 * (k + num)) = (32 * (k + num) + fsi.bytesPerCluster - 1) / fsi.bytesPerCluster := rfl
  rw [growClusters, hend, Nat.shiftRight_eq_div_pow, ← bpc_eq hg, hfor]
  have hcap : 32 * (k + num) < 2 ^ 32 + 672 := by omega
  unfold Measured
  generalize 32 * (k + num) = e at *
  by_cases hin : e ≤ fsi.bytesPerCluster * n
  · have hno : (e + fsi.bytesPerCluster - 1) / fsi.bytesPerCluster ≤ n :=
      (Nat.div_le_iff_le_mul_add_pred (by omega)).mpr (by omega)
    rw [Nat.max_eq_left hno]
    generalize fsi.bytesPerCluster * n = b at *
    split
    · have hz : u32 (u32 e - u32 b + fsi.bytesPerCluster - 1) / fsi.bytesPerCluster = 0 ↔
          u32 (u32 e - u32 b + fsi.bytesPerCluster - 1) < fsi.bytesPerCluster := by
        rw [Nat.div_eq_zero_iff]
        omega
      rw [Nat.add_eq_left, hz]
      simp only [u32] at *
      omega
    · simp only [u32] at *
      omega
  · obtain ⟨d, rfl⟩ : ∃ d, e = fsi.bytesPerCluster * n + d := ⟨_, (Nat.add_sub_of_le (by omega)).symm⟩
    have hmore : (fsi.bytesPerCluster * n + d + fsi.bytesPerCluster - 1) / fsi.bytesPerCluster =
        n + (d + fsi.bytesPerCluster - 1) / fsi.bytesPerCluster := by
      rw [show fsi.bytesPerCluster * n + d + fsi.bytesPerCluster - 1 =
        fsi.bytesPerCluster * n + (d + fsi.bytesPerCluster - 1) by omega,
        Nat.mul_add_div (by omega)]
    have hpart : 1 ≤ (d + fsi.bytesPerCluster - 1) / fsi.bytesPerCluster :=
      (Nat.one_le_div_iff (by omega)).mpr (by omega)
    rw [hmore, Nat.max_eq_right (Nat.le_add_right _ _), Nat.add_right_inj]
    generalize fsi.bytesPerCluster * n = b at *
    by_cases hsame : b < 2 ^ 32 ∧ 2 ^ 32 ≤ b + d
    · rw [if_neg (by simp only [u32]; omega)]
      omega
    · have hdiff : u32 (b + d) - u32 b = d := by
        simp only [u32]
        omega
      have hsum : u32 (d + fsi.bytesPerCluster - 1) = d + fsi.bytesPerCluster - 1 := by
        simp only [u32]
        omega
      rw [if_pos (by omega), hdiff, hsum]
      exact iff_of_true rfl (by omega)

/-- The call made room in a directory that had the clusters `cs`. -/
def MakesRoom (fsi : Fsi) (cs : List Nat) (num offset : Nat) (s t : VnSt) : Prop :=
  ∃ cs', FileChain fsi (view fsi t.vol.disk).fat t.fv.cluster cs' ∧ RoomMade fsi cs cs' num offset s.vol t.vol

/-- There is or can be room: the slots fit into the first cluster of a directory that has none, behind its two
entries; else the first fit begins below 4 GiB, and is one of deleted slots or is measured right. -/
def RoomFor (fsi : Fsi) (cs : List Nat) (num : Nat) (s : VnSt) : Prop :=
  if s.fv.cluster = 0 then 64 + 32 * num ≤ fsi.bytesPerCluster
  else ∃ k, First (FreeAt (volSlots fsi cs s.vol)) num k ∧ 32 * k < 2 ^ 32 ∧
    (AllDeleted (volSlots fsi cs s.vol) num k ∨ Measured fsi (fsi.bytesPerCluster * cs.length) (32 * (k + num)))

theorem FirstCluster.roomMade_iff (hg : Geometry fsi) (h : FirstCluster fsi t) (hnum : 0 < num) :
    RoomMade fsi [] [t.fv.cluster] num 64 v t.vol ↔ 64 + 32 * num ≤ fsi.bytesPerCluster := by
  obtain ⟨-, d, d', hslots⟩ := h
  have hper := bpc_slots hg
  have hlen : (volSlots fsi [t.fv.cluster] t.vol).length = slotsPer fsi := by
    rw [length_dirSlots, List.length_singleton, Nat.one_mul]
  constructor
  · intro hroom
    have hin := hroom.inside
    rw [hlen] at hin
    omega
  · intro hfit
    refine ⟨by decide, by rw [hlen]; omega, fun m hm => .inr ⟨2, Nat.le_add_right _ _, fun x hx => ?_⟩, fun k x hx => ?_, ?_⟩
    · rw [hslots, List.getElem?_set_ne (by decide), List.getElem?_set_ne (by decide),
        List.getElem?_replicate_of_lt (by omega)] at hx
      rw [← Option.some.inj hx]
      rfl
    · cases hx
    · rw [clustersFor_one hg (by omega) (by omega)]
      rfl

/-- The call in a directory without a cluster. -/
theorem makesRoom_first_iff (hk : Reliable fsi.kernel) (hg : Geometry fsi) (hnum : 0 < num) (h0 : s.fv.cluster = 0)
    {offset : Nat} (h : allocFdentry fsi num s = (.ok offset, t)) :
    MakesRoom fsi [] num offset s t ↔ 64 + 32 * num ≤ fsi.bytesPerCluster := by
  have hcall : allocFdentry fsi num s = (if s.fv.cluster = 0 then allocFirst fsi else _) s := rfl
  rw [hcall, if_pos h0] at h
  obtain ⟨rfl, hfirst⟩ := allocFirst_ok hk hg h
  rw [← hfirst.roomMade_iff hg hnum (v := s.vol)]
  constructor
  · rintro ⟨cs', hchain', hroom⟩
    rwa [hchain'.unique hg (.inr hfirst.chain)] at hroom
  · exact fun hroom => ⟨_, .inr hfirst.chain, hroom⟩

/-- There is room in a directory that stays below 4 GiB. -/
theorem roomFor_below (hg : Geometry fsi) (h0 : s.fv.cluster ≠ 0)
    (hlt : fsi.bytesPerCluster * cs.length + 32 * num < 2 ^ 32) : RoomFor fsi cs num s := by
  have hper := bpc_slots hg
  have hbytes : fsi.bytesPerCluster * cs.length = 32 * (volSlots fsi cs s.vol).length := by
    rw [length_dirSlots, hper, Nat.mul_assoc, Nat.mul_comm (slotsPer fsi)]
  have hend : Window (FreeAt (volSlots fsi cs s.vol)) num (volSlots fsi cs s.vol).length :=
    fun m _ => freeAt_end (Nat.le_add_right _ _)
  obtain ⟨k, hk, hfirst⟩ := hend.first
  rw [RoomFor, if_neg h0]
  exact ⟨k, hfirst, by omega, .inr (.inl ⟨by omega, by omega⟩)⟩

theorem allocFdentry_room_iff (hk : Reliable fsi.kernel) (hg : Geometry fsi) (hb : fsi.bytesPerCluster < 2 ^ 32)
    (hfuel : cs.length ≤ fsi.kernel.fuel) (hchain : FileChain fsi (view fsi s.vol.disk).fat s.fv.cluster cs)
    (hnum : 1 ≤ num) (hmax : num ≤ 21) {offset : Nat} (h : allocFdentry fsi num s = (.ok offset, t)) :
    MakesRoom fsi cs num offset s t ↔ RoomFor fsi cs num s := by
  by_cases h0 : s.fv.cluster = 0
  · obtain rfl : cs = [] := hchain.elim And.right fun hl => absurd h0 (FatChain.head_ne_zero hl)
    rw [RoomFor, if_pos h0, makesRoom_first_iff hk hg hnum h0 h]
  · have hl : FatChain fsi (view fsi s.vol.disk).fat s.fv.cluster cs := hchain.of_ne h0
    obtain ⟨k, ext, hfirst, rfl, hfv, g, hext⟩ := allocFdentry_grows hk hg hfuel hnum hl h
    obtain ⟨Z, hslots, hZ⟩ := g.slots hg
    have hchain' : FileChain fsi (view fsi t.vol.disk).fat t.fv.cluster (cs ++ ext) := by
      rw [hfv]
      exact .inr g.chain
    have hmakes : MakesRoom fsi cs num (u32 (32 * k)) s t ↔
        RoomMade fsi cs (cs ++ ext) num (u32 (32 * k)) s.vol t.vol := by
      constructor
      · rintro ⟨cs', hcs', hroom⟩
        rwa [hcs'.unique hg hchain'] at hroom
      · exact fun hroom => ⟨_, hchain', hroom⟩
    have hfor : RoomFor fsi cs num s ↔ 32 * k < 2 ^ 32 ∧ (AllDeleted (volSlots fsi cs s.vol) num k ∨
        Measured fsi (fsi.bytesPerCluster * cs.length) (32 * (k + num))) := by
      rw [RoomFor, if_neg h0]
      constructor
      · rintro ⟨j, hj, hfit⟩
        rwa [hj.unique hfirst] at hfit
      · exact fun hfit => ⟨k, hfirst, hfit⟩
    rw [hmakes, hfor]
    by_cases hlt : 32 * k < 2 ^ 32
    · rw [roomMade_iff hg hfirst hlt List.length_append hslots hZ, and_iff_right hlt]
      have hper := bpc_slots hg
      have hbytes : fsi.bytesPerCluster * cs.length = 32 * (volSlots fsi cs s.vol).length := by
        rw [length_dirSlots, hper, Nat.mul_assoc, Nat.mul_comm (slotsPer fsi)]
      rcases hext with ⟨hdel, rfl⟩ | ⟨hdel, hlen⟩
      · -- deleted slots are inside
        obtain ⟨x, hx, -⟩ := hdel (num - 1) (by omega)
        obtain ⟨hin, -⟩ := List.getElem?_eq_some_iff.mp hx
        refine iff_of_true (Nat.max_eq_left ?_).symm (.inl hdel)
        rw [List.length_nil, Nat.add_zero, clustersFor_slots hg, ← length_dirSlots (view fsi s.vol.disk).data]
        show k + num ≤ (volSlots fsi cs s.vol).length
        omega
      · have hle := first_le hfirst
        rw [hlen, growClusters_iff hg hb (List.length_pos_of_mem hl.head_mem) hmax hlt (by omega), or_iff_right hdel]
    · exact iff_of_false (not_roomMade hmax hfirst (not_lt.mp hlt)) fun h => hlt h.1

/-- A directory, on a volume of two clusters, with the first of them or without one. -/
def oneDir (fat cluster : Nat) : VnSt where
  vol := image [fat, 0] fun _ => []
  fv := { vnodeNew (small 2) with type := .vdir, cluster := cluster, parentCluster := 2 }

theorem oneDir_room : ∃ offset t, allocFdentry (small 2) 1 (oneDir clusterEoc 2) = (.ok offset, t) ∧
    MakesRoom (small 2) [2] 1 offset (oneDir clusterEoc 2) t := by
  have hrun : (allocFdentry (small 2) 1 (oneDir clusterEoc 2)).1 = .ok 0 := by decide +kernel
  obtain ⟨t, ht⟩ : ∃ t, allocFdentry (small 2) 1 (oneDir clusterEoc 2) = (.ok 0, t) := ⟨_, Prod.ext hrun rfl⟩
  have hfin : fatFin (small 2) (view (small 2) (oneDir clusterEoc 2).vol.disk).fat 2 := by
    rw [fatFin]
    decide +kernel
  refine ⟨0, t, ht, ?_⟩
  apply (allocFdentry_room_iff ⟨fun _ => rfl⟩ small_geometry (by decide) (by decide) (.inr (.last hfin))
    (by decide) (by decide) ht).mpr
  exact roomFor_below small_geometry (by decide) (by decide)

/-- The slots for a name with fourteen long name entries go over the end of the first cluster. -/
theorem allocFdentry_beyond : ∃ offset t,
    FileChain (small 2) (view (small 2) (oneDir 0 0).vol.disk).fat (oneDir 0 0).fv.cluster [] ∧
    allocFdentry (small 2) 15 (oneDir 0 0) = (.ok offset, t) ∧ ¬ MakesRoom (small 2) [] 15 offset (oneDir 0 0) t := by
  have hrun : (allocFdentry (small 2) 15 (oneDir 0 0)).1 = .ok 64 := by decide +kernel
  obtain ⟨t, ht⟩ : ∃ t, allocFdentry (small 2) 15 (oneDir 0 0) = (.ok 64, t) := ⟨_, Prod.ext hrun rfl⟩
  refine ⟨64, t, .inl ⟨rfl, rfl⟩, ht, ?_⟩
  rw [makesRoom_first_iff ⟨fun _ => rfl⟩ small_geometry (by decide) rfl ht]
  decide

end Fat32
