import Mathlib.Algebra.Group.Nat.Defs
import Mathlib.Data.List.MinMax
import Mathlib.Data.List.Sort
import OdooKernel.Core.Recency

/-!
# The cache of prepared statements

The kernel keeps the statements it prepared on a connection up to a capacity, and evicts the one that
was used longest ago.  Every entry carries the tick of its last use, and ticks are counted in 64
bits: when the clock is at its end the entries are numbered anew, in the order of their ages.

**What it is compared with** is a queue of keys in the order of their last uses, with no clock in it
(`Core/Recency`).  The map tracks the queue where its entries, sorted by age, are the queue's
(`RecencyMap.Tracks`); for that the ages have to be different, and none above the clock (`Ages`).  A
tick keeps the order whether the ages are counted anew or not (`Ages.nextTick`), and each operation
is then a step of the queue.

**Panics.**  A hash map that has no room for one more entry panics, so a run may have no result; one
that stays within a capacity that memory has room for has one (`Tracks.run_isSome`).

* `RecencyMap` — the map, its clock and what is done to it.
* `RecencyMap.Tracks.step`, `RecencyMap.Tracks.run` — it answers as the queue does.
* **`RecencyMap.exact_lru`** — from the empty map on, and what its ages are.
-/

namespace OdooKernel

open Recency

/-- The last value of the clock. -/
def maxClock : ℕ := 2 ^ 64 - 1

/-- More entries than a hash map has room for: an allocation has fewer bytes. -/
def maxEntries : ℕ := 2 ^ 63

/-- A value and the tick of its last use. -/
structure CacheEntry (τ : Type) where
  value : τ
  used : ℕ

/-- **The map of what was used, and when.** -/
structure RecencyMap (τ : Type) where
  map : List (String × CacheEntry τ)
  clock : ℕ

namespace RecencyMap

variable {τ : Type}

/-- An empty map. -/
def empty : RecencyMap τ := { map := [], clock := 0 }

/-- The entries from the one used longest ago on. -/
def byAge (map : List (String × CacheEntry τ)) : List (String × CacheEntry τ) :=
  map.insertionSort fun a b => a.2.used ≤ b.2.used

/-- The entries with their places for ages. -/
def rebased (map : List (String × CacheEntry τ)) : List (String × CacheEntry τ) :=
  (byAge map).mapIdx fun i entry => (entry.1, { entry.2 with used := i })

/-- The next tick, for which the ages may have to be counted anew.  The clock wraps around. -/
def nextTick (m : RecencyMap τ) : RecencyMap τ :=
  let m := if m.clock = maxClock then { map := rebased m.map, clock := m.map.length } else m
  { m with clock := (m.clock + 1) % 2 ^ 64 }

/-- The entry of a key. -/
def lookup (m : RecencyMap τ) (key : String) : Option (CacheEntry τ) :=
  (m.map.find? (·.1 = key)).map (·.2)

/-- A key's entry in the place of the one it had. -/
def put (m : RecencyMap τ) (key : String) (entry : CacheEntry τ) : RecencyMap τ :=
  { m with map := (key, entry) :: m.map.filter (·.1 ≠ key) }

/-- The value of a key, which is used by asking for it. -/
def get (m : RecencyMap τ) (key : String) : RecencyMap τ × Option τ :=
  let m := m.nextTick
  match m.lookup key with
  | some entry => (m.put key { entry with used := m.clock }, some entry.value)
  | none => (m, none)

/-- The key used longest ago. -/
def oldest (m : RecencyMap τ) : Option String := (m.map.argmin (·.2.used)).map (·.1)

/-- A map without a key. -/
def remove (m : RecencyMap τ) (key : String) : RecencyMap τ :=
  { m with map := m.map.filter (·.1 ≠ key) }

/-- **A value for a key**, and the key that had to leave for it.  A map that has no room left for one
more entry panics. -/
def insert (capacity : ℕ) (m : RecencyMap τ) (key : String) (value : τ) :
    Option (RecencyMap τ × Option String) :=
  let m := m.nextTick
  let m := m.put key { value, used := m.clock }
  if m.map.length ≥ maxEntries then none
  else if m.map.length > capacity then
    match m.oldest with
    | some oldest => some (m.remove oldest, some oldest)
    | none => none
  else some (m, none)

/-- A map without entries, whose clock starts again. -/
def clear (_ : RecencyMap τ) : RecencyMap τ := empty

/-- One step of a map of some capacity, unless it panics. -/
def step (capacity : ℕ) (m : RecencyMap τ) :
    Op String τ → Option (RecencyMap τ × Answer String τ)
  | .get key => let (m, value) := m.get key; some (m, .found value)
  | .insert key value => (m.insert capacity key value).map fun (m, evicted) => (m, .evicted evicted)
  | .remove key => some (m.remove key, .done)
  | .clear => some (m.clear, .done)

/-- The map after some steps, and the answers, unless one of the steps panics. -/
def run (capacity : ℕ) :
    RecencyMap τ → List (Op String τ) → Option (RecencyMap τ × List (Answer String τ))
  | m, [] => some (m, [])
  | m, op :: ops => do
    let (m, answer) ← step capacity m op
    let (m, answers) ← run capacity m ops
    return (m, answer :: answers)

/-! ## The map and the queue -/

/-- An entry without its age. -/
def plain (entry : String × CacheEntry τ) : String × τ := (entry.1, entry.2.value)

/-- **The ages of a map**: all of them different and none above the clock, with the entries in the
order of their last uses. -/
structure Ages (m : RecencyMap τ) (entries : List (String × CacheEntry τ)) : Prop where
  perm : entries.Perm m.map
  increasing : entries.Pairwise fun a b => a.2.used < b.2.used
  nodup : (entries.map (·.1)).Nodup
  reached : ∀ entry ∈ entries, entry.2.used ≤ m.clock
  clock : m.clock ≤ maxClock
  room : entries.length < maxEntries

namespace Ages

variable {m : RecencyMap τ} {entries : List (String × CacheEntry τ)} {key : String} {value : τ}

/-- Two entries of one age are one entry. -/
lemma eq_of_used (h : Ages m entries) {a b : String × CacheEntry τ} (ha : a ∈ entries)
    (hb : b ∈ entries) (hused : a.2.used = b.2.used) : a = b := by
  have hnodup : (entries.map (·.2.used)).Nodup := by
    rw [List.nodup_iff_pairwise_ne, List.pairwise_map]
    exact h.increasing.imp Nat.ne_of_lt
  exact List.inj_on_of_nodup_map hnodup ha hb hused

/-- Sorting by age gives the order of the last uses. -/
lemma byAge_eq (h : Ages m entries) : byAge m.map = entries := by
  have hperm : (byAge m.map).Perm entries := (List.perm_insertionSort _ _).trans h.perm.symm
  have hsorted : (byAge m.map).Pairwise fun a b => a.2.used ≤ b.2.used :=
    List.pairwise_insertionSort _ _
  refine hperm.eq_of_pairwise (fun a b ha hb hab hba => ?_) hsorted (h.increasing.imp Nat.le_of_lt)
  exact h.eq_of_used (hperm.subset ha) hb (Nat.le_antisymm hab hba)

/-- The key used longest ago is the first one. -/
lemma oldest_eq (h : Ages m entries) : m.oldest = entries.head?.map (·.1) := by
  unfold oldest
  congr 1
  match entries, h with
  | [], h =>
      have hmap : m.map = [] := h.perm.symm.eq_nil
      rw [hmap]
      rfl
  | entry :: rest, h =>
      have hmem : entry ∈ m.map := h.perm.subset List.mem_cons_self
      obtain ⟨first, hfirst⟩ : ∃ first, m.map.argmin (·.2.used) = some first := by
        refine Option.ne_none_iff_exists'.mp fun hnone => ?_
        rw [List.argmin_eq_none.mp hnone] at hmem
        exact List.not_mem_nil hmem
      have hle : first.2.used ≤ entry.2.used :=
        List.le_of_mem_argmin (f := fun e => e.2.used) hmem hfirst
      have hin : first ∈ entry :: rest := h.perm.symm.subset (List.argmin_mem hfirst)
      rw [hfirst]
      rcases List.mem_cons.mp hin with rfl | hin
      · rfl
      · have hlt := (List.pairwise_cons.mp h.increasing).1 first hin
        omega

/-- The clock that has room left moves on by one. -/
lemma tick (h : Ages m entries) {clock : ℕ} (hclock : clock < maxClock) (hle : m.clock ≤ clock) :
    Ages { m with clock := (clock + 1) % 2 ^ 64 } entries ∧ (clock + 1) % 2 ^ 64 = clock + 1 := by
  have hmod : (clock + 1) % 2 ^ 64 = clock + 1 := by
    refine Nat.mod_eq_of_lt ?_
    unfold maxClock at hclock
    omega
  refine ⟨⟨h.perm, h.increasing, h.nodup, fun entry hentry => ?_, ?_, h.room⟩, hmod⟩
  · have := h.reached entry hentry
    simp only [hmod]
    omega
  · simp only [hmod]
    omega

/-- Ages that are counted anew are the places in the order. -/
lemma rebased (h : Ages m entries) : Ages { map := RecencyMap.rebased m.map, clock := m.map.length }
    (RecencyMap.rebased m.map) ∧ (RecencyMap.rebased m.map).map plain = entries.map plain := by
  have hlen : m.map.length = entries.length := h.perm.length_eq.symm
  have hplain : (RecencyMap.rebased m.map).map plain = entries.map plain := by
    rw [RecencyMap.rebased, h.byAge_eq]
    refine List.ext_getElem (by simp) fun i hi hi' => ?_
    simp [plain]
  have hroom : entries.length < maxEntries := h.room
  refine ⟨⟨.refl _, ?_, ?_, fun entry hentry => ?_, ?_, ?_⟩, hplain⟩
  · rw [RecencyMap.rebased, List.pairwise_iff_getElem]
    intro i j hi hj hij
    simpa using hij
  · have hkeys := congrArg (List.map (·.1)) hplain
    rw [List.map_map, List.map_map] at hkeys
    have hnodup := h.nodup
    rw [show entries.map (·.1) = (RecencyMap.rebased m.map).map (·.1) from hkeys.symm] at hnodup
    exact hnodup
  · rw [RecencyMap.rebased, h.byAge_eq, List.mem_mapIdx] at hentry
    obtain ⟨i, hi, rfl⟩ := hentry
    exact hlen ▸ Nat.le_of_lt hi
  · show m.map.length ≤ maxClock
    unfold maxEntries maxClock at *
    omega
  · rw [RecencyMap.rebased, h.byAge_eq, List.length_mapIdx]
    exact hroom

/-- **A tick**: the entries keep their order, and all ages are before it. -/
lemma nextTick (h : Ages m entries) : ∃ entries', Ages m.nextTick entries' ∧
    entries'.map plain = entries.map plain ∧ ∀ entry ∈ entries', entry.2.used < m.nextTick.clock := by
  unfold RecencyMap.nextTick
  split_ifs with hmax
  · obtain ⟨hages, hplain⟩ := h.rebased
    have hlen : m.map.length < maxClock := by
      have := h.room
      rw [h.perm.length_eq] at this
      unfold maxEntries maxClock at *
      omega
    obtain ⟨hages', hmod⟩ := hages.tick hlen le_rfl
    refine ⟨_, hages', hplain, fun entry hentry => ?_⟩
    have hle := hages.reached entry hentry
    show entry.2.used < (m.map.length + 1) % 2 ^ 64
    rw [hmod]
    exact Nat.lt_succ_of_le hle
  · have hlt : m.clock < maxClock := Nat.lt_of_le_of_ne h.clock hmax
    obtain ⟨hages, hmod⟩ := h.tick hlt le_rfl
    refine ⟨_, hages, rfl, fun entry hentry => ?_⟩
    show entry.2.used < (m.clock + 1) % 2 ^ 64
    rw [hmod]
    exact Nat.lt_succ_of_le (h.reached entry hentry)

/-- The entries without a key. -/
lemma remove (h : Ages m entries) (key : String) :
    Ages (m.remove key) (entries.filter (·.1 ≠ key)) where
  perm := h.perm.filter _
  increasing := h.increasing.sublist List.filter_sublist
  nodup := h.nodup.sublist (List.filter_sublist.map _)
  reached entry hentry := h.reached entry (List.mem_of_mem_filter hentry)
  clock := h.clock
  room := Nat.lt_of_le_of_lt (List.length_filter_le _ _) h.room

lemma map_plain_filter (entries : List (String × CacheEntry τ)) (key : String) :
    (entries.filter (·.1 ≠ key)).map plain = without key (entries.map plain) := by
  rw [without, List.filter_map]
  rfl

/-- An entry that is used now is the last one. -/
lemma put (h : Ages m entries) (hbefore : ∀ entry ∈ entries, entry.2.used < m.clock)
    (hroom : (entries.filter (·.1 ≠ key)).length + 1 < maxEntries) :
    Ages (m.put key { value, used := m.clock })
      (entries.filter (·.1 ≠ key) ++ [(key, { value, used := m.clock })]) where
  perm := by
    refine List.perm_append_comm.trans ?_
    exact (h.perm.filter _).cons _
  increasing := by
    refine List.pairwise_append.mpr ⟨(h.remove key).increasing, List.pairwise_singleton _ _, ?_⟩
    rintro a ha b hb
    rw [List.mem_singleton] at hb
    subst hb
    exact hbefore a (List.mem_of_mem_filter ha)
  nodup := by
    have hnodup := nodup_use key value (show ((entries.map plain).map (·.1)).Nodup by
      rw [List.map_map]
      exact h.nodup)
    rw [use, ← map_plain_filter] at hnodup
    simpa [plain, Function.comp_def] using hnodup
  reached entry hentry := by
    rcases List.mem_append.mp hentry with hentry | hentry
    · exact Nat.le_of_lt (hbefore entry (List.mem_of_mem_filter hentry))
    · rw [List.mem_singleton] at hentry
      subst hentry
      exact le_rfl
  clock := h.clock
  room := by simpa using hroom

/-- The value of a key in the map is its value in the queue. -/
lemma lookup_eq (h : Ages m entries) :
    (m.lookup key).map (·.value) = find key (entries.map plain) := by
  have hnodup : ((entries.map plain).map (·.1)).Nodup := by
    rw [List.map_map]
    exact h.nodup
  have hmap : ((m.map.map plain).map (·.1)).Nodup := by
    refine (List.Perm.nodup_iff ?_).mp hnodup
    exact (h.perm.map _).map _
  have hlookup : (m.lookup key).map (·.value) = find key (m.map.map plain) := by
    unfold RecencyMap.lookup find
    rw [List.find?_map, Option.map_map, Option.map_map]
    rfl
  rw [hlookup]
  refine Option.ext fun value => ?_
  rw [find_eq_some hmap, find_eq_some hnodup]
  exact ((h.perm.map plain).mem_iff).symm

end Ages

/-- **The map holds what the queue holds**, in the order of its ages. -/
def Tracks (m : RecencyMap τ) (queue : List (String × τ)) : Prop :=
  ∃ entries, Ages m entries ∧ entries.map plain = queue

section Steps

variable {capacity : ℕ} {m m' : RecencyMap τ} {queue : List (String × τ)} {key : String} {value : τ}

lemma Tracks.nodup (h : m.Tracks queue) : (queue.map (·.1)).Nodup := by
  obtain ⟨entries, hages, rfl⟩ := h
  rw [List.map_map]
  exact hages.nodup

/-- A map that tracks a queue is looked up as the queue is. -/
lemma Tracks.lookup_eq (h : m.Tracks queue) (key : String) :
    (m.lookup key).map (·.value) = find key queue := by
  obtain ⟨entries, hages, rfl⟩ := h
  exact hages.lookup_eq

/-- A key that is given a value after a tick is the last one of the queue. -/
lemma Tracks.use (h : m.Tracks queue) (key : String) (value : τ)
    (hroom : (without key queue).length + 1 < maxEntries) :
    (m.nextTick.put key { value, used := m.nextTick.clock }).Tracks (use key value queue) := by
  obtain ⟨entries, hages, rfl⟩ := h
  obtain ⟨entries', hages', hplain, hbefore⟩ := hages.nextTick
  rw [← hplain] at hroom ⊢
  rw [← Ages.map_plain_filter, List.length_map] at hroom
  refine ⟨_, hages'.put hbefore hroom, ?_⟩
  rw [List.map_append, Ages.map_plain_filter]
  rfl

/-- A tick changes nothing but the ages. -/
lemma Tracks.nextTick (h : m.Tracks queue) : m.nextTick.Tracks queue := by
  obtain ⟨entries, hages, rfl⟩ := h
  obtain ⟨entries', hages', hplain, -⟩ := hages.nextTick
  exact ⟨entries', hages', hplain⟩

lemma Tracks.remove (h : m.Tracks queue) (key : String) :
    (m.remove key).Tracks (without key queue) := by
  obtain ⟨entries, hages, rfl⟩ := h
  exact ⟨_, hages.remove key, Ages.map_plain_filter entries key⟩

lemma Tracks.length (h : m.Tracks queue) :
    m.map.length = queue.length ∧ queue.length < maxEntries := by
  obtain ⟨entries, hages, rfl⟩ := h
  rw [List.length_map]
  exact ⟨hages.perm.length_eq.symm, hages.room⟩

/-- The key that leaves is the first of the queue, and the rest stays. -/
lemma Tracks.evict (h : m.Tracks queue) (hne : queue ≠ []) : ∃ key,
    m.oldest = some key ∧ queue.head?.map (·.1) = some key ∧ (m.remove key).Tracks queue.tail := by
  have hnodup := h.nodup
  match queue, hne with
  | first :: rest, _ =>
      refine ⟨first.1, ?_, rfl, ?_⟩
      · obtain ⟨entries, hages, hplain⟩ := h
        rw [hages.oldest_eq]
        match entries, hplain with
        | entry :: _, hplain => rw [← (List.cons.inj hplain).1]; rfl
      · have hrest : without first.1 (first :: rest) = rest := by
          have hnot : first.1 ∉ rest.map (·.1) := (List.nodup_cons.mp hnodup).1
          rw [without, List.filter_cons_of_neg (by simp), List.filter_eq_self]
          intro entry hentry
          simpa using fun heq => hnot (List.mem_map.mpr ⟨entry, hentry, heq⟩)
        simpa [hrest] using h.remove first.1

/-- **A step of the map is a step of the queue.** -/
lemma Tracks.step (h : m.Tracks queue) {op : Op String τ} {answer : Answer String τ}
    (hstep : m.step capacity op = some (m', answer)) :
    m'.Tracks (Recency.step capacity queue op).1 ∧ (Recency.step capacity queue op).2 = answer := by
  cases op with
  | get key =>
      have hfind := h.nextTick.lookup_eq key
      obtain ⟨rfl, rfl⟩ := Prod.mk.inj (Option.some.inj hstep)
      cases hentry : m.nextTick.lookup key with
      | none =>
          rw [hentry, Option.map_none] at hfind
          simp only [Recency.step, ← hfind]
          exact ⟨h.nextTick, trivial⟩
      | some entry =>
          rw [hentry, Option.map_some] at hfind
          have hlen := length_without_of_mem h.nodup ((find_eq_some h.nodup).mp hfind.symm)
          simp only [Recency.step, ← hfind]
          exact ⟨h.use key entry.value (hlen.trans_lt h.length.2), trivial⟩
  | insert key value =>
      obtain ⟨⟨m₁, evicted⟩, hinsert, heq⟩ := Option.map_eq_some_iff.mp hstep
      obtain ⟨rfl, rfl⟩ := Prod.mk.inj heq
      unfold RecencyMap.insert at hinsert
      have hput : (m.nextTick.put key { value, used := m.nextTick.clock }).map.length
          = (without key queue).length + 1 := by
        have := (h.nextTick.remove key).length.1
        simpa [put, RecencyMap.remove] using this
      simp only [hput] at hinsert
      split_ifs at hinsert with hroom hover
      · have htracks := h.use key value (Nat.lt_of_not_le hroom)
        have hlen : (Recency.use key value queue).length = (without key queue).length + 1 := by
          simp [Recency.use]
        obtain ⟨first, holdest, hhead, hrest⟩ := htracks.evict (by
          rw [← List.length_pos_iff_ne_nil, hlen]
          omega)
        rw [holdest] at hinsert
        obtain ⟨rfl, rfl⟩ := Prod.mk.inj (Option.some.inj hinsert)
        simp only [Recency.step, hlen, if_pos hover]
        exact ⟨hrest, congrArg _ hhead⟩
      · have hlen : (Recency.use key value queue).length = (without key queue).length + 1 := by
          simp [Recency.use]
        obtain ⟨rfl, rfl⟩ := Prod.mk.inj (Option.some.inj hinsert)
        simp only [Recency.step, hlen, if_neg hover]
        exact ⟨h.use key value (Nat.lt_of_not_le hroom), trivial⟩
  | remove key =>
      obtain ⟨rfl, rfl⟩ := Prod.mk.inj (Option.some.inj hstep)
      exact ⟨h.remove key, rfl⟩
  | clear =>
      obtain ⟨rfl, rfl⟩ := Prod.mk.inj (Option.some.inj hstep)
      refine ⟨⟨[], ?_, rfl⟩, rfl⟩
      exact ⟨.refl _, .nil, .nil, by simp, Nat.zero_le _, by simp [maxEntries]⟩

/-- **A run of the map is a run of the queue.** -/
lemma Tracks.run (h : m.Tracks queue) {ops : List (Op String τ)} {answers : List (Answer String τ)}
    (hrun : m.run capacity ops = some (m', answers)) :
    m'.Tracks (Recency.run capacity queue ops).1 ∧ (Recency.run capacity queue ops).2 = answers := by
  induction ops generalizing m queue answers with
  | nil =>
      obtain ⟨rfl, rfl⟩ := Prod.mk.inj (Option.some.inj hrun)
      exact ⟨h, rfl⟩
  | cons op ops ih =>
      obtain ⟨⟨m₁, answer⟩, hstep, hrun⟩ := Option.bind_eq_some_iff.mp hrun
      obtain ⟨⟨m₂, rest⟩, hrest, hrun⟩ := Option.bind_eq_some_iff.mp hrun
      obtain ⟨rfl, rfl⟩ := Prod.mk.inj (Option.some.inj hrun)
      obtain ⟨hstep, hanswer⟩ := h.step hstep
      obtain ⟨hrest, hanswers⟩ := ih hstep hrest
      refine ⟨hrest, ?_⟩
      rw [Recency.run, ← hanswer, ← hanswers]

lemma tracks_empty : (empty : RecencyMap τ).Tracks [] :=
  ⟨[], ⟨.refl _, .nil, .nil, by simp, Nat.zero_le _, by simp [maxEntries]⟩, rfl⟩

/-- A map that stays within a capacity that memory has room for does not panic. -/
lemma Tracks.run_isSome (h : m.Tracks queue) (hkept : WellKept capacity queue)
    (hroom : capacity + 1 < maxEntries) (ops : List (Op String τ)) :
    (m.run capacity ops).isSome := by
  induction ops generalizing m queue with
  | nil => rfl
  | cons op ops ih =>
      obtain ⟨⟨m₁, answer⟩, hstep⟩ : ∃ out, m.step capacity op = some out := by
        cases op with
        | get key => exact ⟨_, rfl⟩
        | remove key => exact ⟨_, rfl⟩
        | clear => exact ⟨_, rfl⟩
        | insert key value =>
            have hput : (m.nextTick.put key { value, used := m.nextTick.clock }).map.length
                = (without key queue).length + 1 := by
              have := (h.nextTick.remove key).length.1
              simpa [put, RecencyMap.remove] using this
            have hle : (without key queue).length ≤ capacity :=
              Nat.le_trans (List.length_filter_le _ _) hkept.bounded
            have hfits : (without key queue).length + 1 < maxEntries := by omega
            obtain ⟨first, holdest, -⟩ := (h.use key value hfits).evict (by simp [Recency.use])
            have hinsert : ∃ out, m.insert capacity key value = some out := by
              unfold RecencyMap.insert
              simp only [hput, if_neg (Nat.not_le_of_lt hfits), holdest]
              split_ifs <;> exact ⟨_, rfl⟩
            obtain ⟨out, hout⟩ := hinsert
            exact ⟨_, Option.map_eq_some_iff.mpr ⟨out, hout, rfl⟩⟩
      obtain ⟨out, hout⟩ := Option.isSome_iff_exists.mp (ih (h.step hstep).1 (hkept.step op))
      rw [RecencyMap.run, hstep]
      simp [hout]

end Steps

/-- **The cache is an exact queue of recency**, for every capacity and every sequence of steps, those
that count the ages anew included.  It gives the answers of the queue, evictions included, it holds
the keys and the values of the queue, no more than the capacity, and the order of its ages, which are
all different and never above the clock, is the order of the queue.  It does not panic where memory
has room for the capacity. -/
theorem exact_lru (capacity : ℕ) (ops : List (Op String τ)) :
    (∀ m answers, empty.run capacity ops = some (m, answers) →
      answers = (Recency.run capacity [] ops).2 ∧
      (∀ key, (m.lookup key).map (·.value) = find key (Recency.run capacity [] ops).1) ∧
      (byAge m.map).map plain = (Recency.run capacity [] ops).1 ∧
      (m.map.map (·.1)).Nodup ∧ m.map.length ≤ capacity ∧
      (m.map.map (·.2.used)).Nodup ∧ (∀ entry ∈ m.map, entry.2.used ≤ m.clock) ∧
      m.clock ≤ maxClock) ∧
    (capacity + 1 < maxEntries → ((empty : RecencyMap τ).run capacity ops).isSome) := by
  refine ⟨fun m answers hrun => ?_, fun hroom =>
    tracks_empty.run_isSome wellKept_nil hroom ops⟩
  obtain ⟨htracks, hanswers⟩ := tracks_empty.run hrun
  have hkept := (wellKept_nil : WellKept capacity ([] : List (String × τ))).run ops
  refine ⟨hanswers.symm, fun key => htracks.lookup_eq key, ?_⟩
  have hlength := htracks.length
  obtain ⟨entries, hages, hqueue⟩ := htracks
  refine ⟨?_, ?_, ?_, ?_, fun entry hentry => ?_, hages.clock⟩
  · rw [hages.byAge_eq, hqueue]
  · exact ((hages.perm.map _).nodup_iff).mp hages.nodup
  · rw [hlength.1]
    exact hkept.bounded
  · refine ((hages.perm.map _).nodup_iff).mp ?_
    rw [List.nodup_iff_pairwise_ne, List.pairwise_map]
    exact hages.increasing.imp Nat.ne_of_lt
  · exact hages.reached entry (hages.perm.symm.subset hentry)

/-- Two statements in a cache of one: the second evicts the first. -/
def twoStatements : List (Op String ℕ) := [.insert "SELECT 1" 1, .insert "SELECT 2" 2]

/-- What the cache of one holds after them. -/
theorem twoStatements_run : ∃ m, empty.run 1 twoStatements
      = some (m, [.evicted none, .evicted (some "SELECT 1")]) ∧
    m.lookup "SELECT 1" = none ∧ m.map.length ≤ 1 := by
  obtain ⟨⟨m, answers⟩, hrun⟩ := Option.isSome_iff_exists.mp
    ((exact_lru 1 twoStatements).2 (by simp [maxEntries]))
  obtain ⟨hanswers, hlookup, -, -, hlength, -⟩ := (exact_lru 1 twoStatements).1 m answers hrun
  have hgone : (m.lookup "SELECT 1").map (·.value) = none := by
    rw [hlookup]
    decide +kernel
  have hgiven : (Recency.run 1 [] twoStatements).2
      = [.evicted none, .evicted (some "SELECT 1")] := by
    decide +kernel
  rw [hanswers, hgiven] at hrun
  exact ⟨m, hrun, Option.map_eq_none_iff.mp hgone, hlength⟩

/-- The key that was used last has the age that the clock shows. -/
theorem age_meets_clock : ¬ ∀ (capacity : ℕ) (ops : List (Op String ℕ)) (m : RecencyMap ℕ)
    (answers : List (Answer String ℕ)), 1 ≤ capacity → empty.run capacity ops = some (m, answers) →
      ∀ entry ∈ m.map, entry.2.used < m.clock := by
  intro h
  have hrun : (empty : RecencyMap ℕ).run 1 [.insert "SELECT 1" 1]
      = some ({ map := [("SELECT 1", { value := 1, used := 1 })], clock := 1 }, [.evicted none]) := by
    rfl
  exact absurd (h 1 _ _ _ le_rfl hrun _ (List.mem_singleton.mpr rfl)) (Nat.lt_irrefl 1)

end RecencyMap

end OdooKernel
