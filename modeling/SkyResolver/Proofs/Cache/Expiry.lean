import SkyResolver.Cache
import SkyResolver.Proofs.Cache.Entries

/-! What a cache answers over a history of uses. A look-up finds the latest value that was written
under its key, unless that value has expired, just as in a cache that never drops anything. What a
write sweeps out is what no later look-up could find. -/
namespace SkyResolver

/-! ### One write -/

namespace Cache
variable {κ ν : Type} [DecidableEq κ] {cache : Cache κ ν} {now later : Nat}
  {key other : κ} {value : ν}

lemma get?_eq_some_iff : cache.get? now key = some value ↔
    ∃ cached, cache.table.get? key = some cached ∧ isFresh cache.ttl now cached = true ∧
      cached.value = value := by
  simp only [get?, Option.map_eq_some_iff, Option.filter_eq_some_iff, and_assoc]

lemma isFresh_of_le {ttl : Duration} {cached : Cached ν} (h : now ≤ later)
    (hfresh : isFresh ttl later cached = true) : isFresh ttl now cached = true := by
  rw [isFresh, decide_eq_true_iff] at hfresh ⊢
  omega

/-- What is found at some time was found before. -/
lemma get?_of_le (h : now ≤ later) (hget : cache.get? later key = some value) :
    cache.get? now key = some value := by
  obtain ⟨cached, hcached, hfresh, hvalue⟩ := get?_eq_some_iff.1 hget
  exact get?_eq_some_iff.2 ⟨cached, hcached, isFresh_of_le h hfresh, hvalue⟩

lemma get?_eq_none_of_le (h : now ≤ later) (hget : cache.get? now key = none) :
    cache.get? later key = none := by
  cases hlater : cache.get? later key with
  | none => rfl
  | some value => exact absurd (get?_of_le h hlater) (by simp [hget])

lemma get?_insert_self_cases (cache : Cache κ ν) (now later : Nat) (key : κ) (value : ν) :
    (cache.insert now key value).get? later key = none ∨
      (cache.insert now key value).get? later key = some value := by
  cases hget : (cache.insert now key value).get? later key with
  | none => exact .inl rfl
  | some found =>
    obtain ⟨cached, hcached, -, rfl⟩ := get?_eq_some_iff.1 hget
    obtain rfl : ⟨value, now⟩ = cached := by simpa [insert] using hcached
    exact .inr rfl

/-- A write under another key, and the sweep that comes with it, are not seen by later look-ups. -/
lemma get?_insert_of_ne (hcache : cache.table.keys.Nodup) (h : now ≤ later) (hne : other ≠ key) :
    (cache.insert now key value).get? later other = cache.get? later other := by
  have hkept : (cache.table.keep (isFresh cache.ttl now)).keys.Nodup :=
    hcache.sublist (List.filter_sublist.map Prod.fst)
  refine Option.ext fun found => ?_
  rw [get?_eq_some_iff, get?_eq_some_iff, insert]
  refine exists_congr fun cached => ?_
  rw [Table.get?_insert_of_ne _ _ hne, Table.get?_eq_some_iff hkept, Table.get?_eq_some_iff hcache,
    Table.keep, List.mem_filter]
  constructor
  · rintro ⟨⟨hmem, -⟩, hfresh, hvalue⟩
    exact ⟨hmem, hfresh, hvalue⟩
  · rintro ⟨hmem, hfresh, hvalue⟩
    exact ⟨⟨hmem, isFresh_of_le h hfresh⟩, hfresh, hvalue⟩

lemma nodup_keys_insert (hcache : cache.table.keys.Nodup) :
    (cache.insert now key value).table.keys.Nodup :=
  Table.nodup_keys_insert (hcache.sublist (List.filter_sublist.map Prod.fst))

lemma forall_mem_insert (holds : κ → ν → Prop)
    (h : ∀ entry ∈ cache.table.entries, holds entry.1 entry.2.value) (hvalue : holds key value) :
    ∀ entry ∈ (cache.insert now key value).table.entries, holds entry.1 entry.2.value := by
  intro entry hentry
  rcases Table.mem_entries_insert.1 hentry with rfl | ⟨hentry, -⟩
  · exact hvalue
  · exact h entry (List.mem_filter.1 hentry).1

end Cache

/-! ### Uses of a cache -/

/-- A use of a cache. -/
inductive Cache.Use (κ ν : Type) where
  | insert (key : κ) (value : ν)
  | get (key : κ)

namespace Cache
variable {κ ν : Type} [DecidableEq κ]

/-- Puts a value under a key and drops nothing that stands under other keys. -/
def insertOnly (cache : Cache κ ν) (now : Nat) (key : κ) (value : ν) : Cache κ ν :=
  { cache with table := cache.table.insert key ⟨value, now⟩ }

/-- The cache after uses at given times, written to by `write`. -/
def after (write : Cache κ ν → Nat → κ → ν → Cache κ ν) (cache : Cache κ ν) :
    List (Nat × Use κ ν) → Cache κ ν
  | [] => cache
  | (now, .insert key value) :: uses => after write (write cache now key value) uses
  | (_, .get _) :: uses => after write cache uses

omit [DecidableEq κ] in
lemma after_append {write : Cache κ ν → Nat → κ → ν → Cache κ ν} {cache : Cache κ ν}
    (uses rest : List (Nat × Use κ ν)) :
    cache.after write (uses ++ rest) = (cache.after write uses).after write rest := by
  induction uses generalizing cache with
  | nil => rfl
  | cons use uses ih => obtain ⟨now, _ | _⟩ := use <;> exact ih

/-- What the look-ups among the uses find. -/
def answers (write : Cache κ ν → Nat → κ → ν → Cache κ ν) (cache : Cache κ ν) :
    List (Nat × Use κ ν) → List (Option ν)
  | [] => []
  | (now, .insert key value) :: uses => answers write (write cache now key value) uses
  | (now, .get key) :: uses => cache.get? now key :: answers write cache uses

/-! ### The plain history -/

/-- What a use writes under a key, if it does, and when. -/
def writtenUnder (key : κ) : Nat × Use κ ν → Option (Cached ν)
  | (now, .insert k value) => if k = key then some ⟨value, now⟩ else none
  | (_, .get _) => none

/-- The latest value that was written under a key, and when. -/
def latest (history : List (Nat × Use κ ν)) (key : κ) : Option (Cached ν) :=
  (history.filterMap (writtenUnder key)).getLast?

/-- The latest value that was written under a key less than `ttl` ago. -/
def recalled (ttl : Duration) (history : List (Nat × Use κ ν)) (now : Nat) (key : κ) : Option ν :=
  match latest history key with
  | some cached => if now < cached.written + ttl.nanoseconds then some cached.value else none
  | none => none

/-- What look-ups find if each one goes through the whole history before it. -/
def recollections (ttl : Duration) (history : List (Nat × Use κ ν)) :
    List (Nat × Use κ ν) → List (Option ν)
  | [] => []
  | (now, .insert key value) :: uses =>
    recollections ttl (history ++ [(now, .insert key value)]) uses
  | (now, .get key) :: uses =>
    recalled ttl history now key :: recollections ttl (history ++ [(now, .get key)]) uses

section History
variable {history : List (Nat × Use κ ν)} {now : Nat} {key other : κ} {value : ν}

@[simp] lemma latest_insert_self :
    latest (history ++ [(now, .insert key value)]) key = some ⟨value, now⟩ := by
  simp [latest, writtenUnder]

lemma latest_insert_of_ne (h : other ≠ key) :
    latest (history ++ [(now, .insert key value)]) other = latest history other := by
  have hkey : writtenUnder other (now, .insert key value) = none := by simp [writtenUnder, h.symm]
  simp [latest, hkey]

@[simp] lemma latest_get : latest (history ++ [(now, .get key)]) other = latest history other := by
  simp [latest, writtenUnder]

end History

/-! ### Caches that mirror a history -/

/-- The cache holds all of the history that can be found at the given time or later, and nothing
that was overwritten. -/
structure Mirrors (cache : Cache κ ν) (history : List (Nat × Use κ ν)) (now : Nat) : Prop where
  nodup : cache.table.keys.Nodup
  past : ∀ entry ∈ cache.table.entries, entry.2.written ≤ now
  latest : ∀ entry ∈ cache.table.entries, latest history entry.1 = some entry.2
  complete : ∀ key cached, Cache.latest history key = some cached →
    now < cached.written + cache.ttl.nanoseconds → (key, cached) ∈ cache.table.entries

lemma mirrors_empty (ttl : Duration) (now : Nat) :
    Mirrors (empty ttl : Cache κ ν) [] now where
  nodup := .nil
  past := by rintro _ ⟨⟩
  latest := by rintro _ ⟨⟩
  complete := by rintro _ _ ⟨⟩

section Mirrors
variable {cache : Cache κ ν} {history : List (Nat × Use κ ν)} {now : Nat}

lemma Mirrors.mono (h : cache.Mirrors history now) {later : Nat} (hlater : now ≤ later) :
    cache.Mirrors history later where
  nodup := h.nodup
  past entry hentry := Nat.le_trans (h.past entry hentry) hlater
  latest := h.latest
  complete key cached hcached hfresh :=
  h.complete key cached hcached (Nat.lt_of_le_of_lt hlater hfresh)

lemma isFresh_iff {ttl : Duration} {cached : Cached ν} (h : cached.written ≤ now) :
    isFresh ttl now cached = true ↔ now < cached.written + ttl.nanoseconds := by
  rw [isFresh, decide_eq_true_iff]
  omega

/-- A look-up finds the latest value unless it has expired. -/
lemma Mirrors.get? (h : cache.Mirrors history now) (key : κ) :
    cache.get? now key = recalled cache.ttl history now key := by
  refine Option.ext fun value => ?_
  rw [get?_eq_some_iff, recalled]
  constructor
  · rintro ⟨cached, hcached, hfresh, rfl⟩
    have hmem := (Table.get?_eq_some_iff h.nodup).1 hcached
    rw [h.latest _ hmem]
    exact if_pos ((isFresh_iff (h.past _ hmem)).1 hfresh)
  · cases hlatest : Cache.latest history key with
    | none => exact nofun
    | some cached =>
      intro hvalue
      obtain ⟨hfresh, hvalue⟩ := Option.ite_none_right_eq_some.1 hvalue
      have hmem := h.complete key cached hlatest hfresh
      exact ⟨cached, (Table.get?_eq_some_iff h.nodup).2 hmem,
        (isFresh_iff (h.past _ hmem)).2 hfresh, Option.some.inj hvalue⟩

/-- A write may drop anything that has expired, besides what it overwrites. -/
lemma Mirrors.write (h : cache.Mirrors history now) (kept : Table κ (Cached ν))
    (hkept : kept.entries.Sublist cache.table.entries)
    (hfresh : ∀ entry ∈ cache.table.entries, now < entry.2.written + cache.ttl.nanoseconds →
      entry ∈ kept.entries) (key : κ) (value : ν) :
    Mirrors { cache with table := kept.insert key ⟨value, now⟩ }
      (history ++ [(now, .insert key value)]) now where
  nodup := Table.nodup_keys_insert (h.nodup.sublist (hkept.map Prod.fst))
  past := by
    intro entry hentry
    rcases Table.mem_entries_insert.1 hentry with rfl | ⟨hentry, -⟩
    · exact Nat.le_refl now
    · exact h.past entry (hkept.subset hentry)
  latest := by
    intro entry hentry
    rcases Table.mem_entries_insert.1 hentry with rfl | ⟨hentry, hne⟩
    · exact latest_insert_self
    · exact (latest_insert_of_ne hne).trans (h.latest entry (hkept.subset hentry))
  complete := by
    intro other cached hcached hlives
    refine Table.mem_entries_insert.2 ?_
    by_cases hother : other = key
    · subst hother
      rw [latest_insert_self] at hcached
      exact .inl (by rw [Option.some.inj hcached])
    · rw [latest_insert_of_ne hother] at hcached
      exact .inr ⟨hfresh _ (h.complete other cached hcached hlives) hlives, hother⟩

/-- A sweep keeps what has not expired. -/
lemma Mirrors.insert (h : cache.Mirrors history now) (key : κ) (value : ν) :
    (cache.insert now key value).Mirrors (history ++ [(now, .insert key value)]) now := by
  refine h.write (cache.table.keep (isFresh cache.ttl now)) List.filter_sublist ?_ key value
  intro entry hentry hlives
  exact List.mem_filter.2 ⟨hentry, (isFresh_iff (h.past entry hentry)).2 hlives⟩

lemma Mirrors.insertOnly (h : cache.Mirrors history now) (key : κ) (value : ν) :
    (cache.insertOnly now key value).Mirrors (history ++ [(now, .insert key value)]) now :=
  h.write cache.table (List.Sublist.refl _) (fun _ hentry _ => hentry) key value

lemma Mirrors.get (h : cache.Mirrors history now) (key : κ) :
    cache.Mirrors (history ++ [(now, .get key)]) now where
  nodup := h.nodup
  past := h.past
  latest entry hentry := latest_get.trans (h.latest entry hentry)
  complete other cached hcached := h.complete other cached (latest_get.symm.trans hcached)

/-- What is stored after a write: the value written, and of every other key the latest value that
has not expired. -/
lemma Mirrors.mem_insert (h : cache.Mirrors history now) (key : κ) (value : ν)
    (entry : κ × Cached ν) :
    entry ∈ (cache.insert now key value).table.entries ↔ entry = (key, ⟨value, now⟩) ∨
      entry.1 ≠ key ∧ Cache.latest history entry.1 = some entry.2 ∧
        now < entry.2.written + cache.ttl.nanoseconds := by
  rw [Cache.insert, Table.mem_entries_insert]
  refine or_congr_right ?_
  constructor
  · rintro ⟨hkept, hne⟩
    obtain ⟨hentry, hfresh⟩ := List.mem_filter.1 hkept
    exact ⟨hne, h.latest entry hentry, (isFresh_iff (h.past entry hentry)).1 hfresh⟩
  · rintro ⟨hne, hlatest, hlives⟩
    have hentry := h.complete _ _ hlatest hlives
    exact ⟨List.mem_filter.2 ⟨hentry, (isFresh_iff (h.past entry hentry)).2 hlives⟩, hne⟩

end Mirrors

/-! ### Whole histories -/

/-- A way to write after which the cache mirrors the history with the write in it. -/
structure Mirroring (write : Cache κ ν → Nat → κ → ν → Cache κ ν) : Prop where
  ttl_eq : ∀ cache now key value, (write cache now key value).ttl = cache.ttl
  mirrors : ∀ {cache history now}, cache.Mirrors history now → ∀ key value,
    (write cache now key value).Mirrors (history ++ [(now, .insert key value)]) now

lemma mirroring_insert : Mirroring (insert (κ := κ) (ν := ν)) := ⟨fun _ _ _ _ => rfl, .insert⟩

lemma mirroring_insertOnly : Mirroring (insertOnly (κ := κ) (ν := ν)) :=
  ⟨fun _ _ _ _ => rfl, .insertOnly⟩

section Replay
variable {write : Cache κ ν → Nat → κ → ν → Cache κ ν} {cache : Cache κ ν}
  {history uses : List (Nat × Use κ ν)} {now : Nat}

/-- A cache that mirrors the history so far answers all further uses from the history. -/
lemma Mirroring.answers (hwrite : Mirroring write) (h : cache.Mirrors history now)
    (hnow : ∀ use ∈ uses, now ≤ use.1) (hclock : uses.Pairwise fun a b => a.1 ≤ b.1) :
    cache.answers write uses = recollections cache.ttl history uses := by
  induction uses generalizing cache history now with
  | nil => rfl
  | cons use uses ih =>
    obtain ⟨time, use⟩ := use
    obtain ⟨hhead, htail⟩ := List.pairwise_cons.1 hclock
    have hthen : cache.Mirrors history time := h.mono (hnow _ List.mem_cons_self)
    cases use with
    | insert key value =>
      have hrest := ih (hwrite.mirrors hthen key value) hhead htail
      rwa [hwrite.ttl_eq] at hrest
    | get key =>
      rw [Cache.answers, recollections, hthen.get?, ih (hthen.get key) hhead htail]

/-- It still mirrors the history when all these uses have been made. -/
lemma Mirroring.after (hwrite : Mirroring write) (h : cache.Mirrors history now)
    (hnow : ∀ use ∈ uses, now ≤ use.1) (hclock : uses.Pairwise fun a b => a.1 ≤ b.1) {later : Nat}
    (hstart : now ≤ later) (hlater : ∀ use ∈ uses, use.1 ≤ later) :
    (cache.after write uses).ttl = cache.ttl ∧
      (cache.after write uses).Mirrors (history ++ uses) later := by
  induction uses generalizing cache history now with
  | nil => exact ⟨rfl, by simpa [Cache.after] using h.mono hstart⟩
  | cons use uses ih =>
    obtain ⟨time, use⟩ := use
    obtain ⟨hhead, htail⟩ := List.pairwise_cons.1 hclock
    obtain ⟨htime, huses⟩ := List.forall_mem_cons.1 hlater
    have hthen : cache.Mirrors history time := h.mono (hnow _ List.mem_cons_self)
    rw [List.append_cons]
    cases use with
    | insert key value =>
      obtain ⟨httl, hmirrors⟩ := ih (hwrite.mirrors hthen key value) hhead htail htime huses
      exact ⟨httl.trans (hwrite.ttl_eq ..), hmirrors⟩
    | get key => exact ih (hthen.get key) hhead htail htime huses

end Replay

/-- Sweeping is invisible. Over any history of uses whose times do not run backwards, each look-up
finds the latest value that was written under its key less than `ttl` ago, as it does in a cache
that drops nothing; and right after a write a cache that sweeps stores, once for each key, the value
that was written and the latest values under other keys that have not expired, and nothing else. -/
theorem answers_of_sweeping (ttl : Duration) (uses : List (Nat × Use κ ν))
    (hclock : uses.Pairwise fun a b => a.1 ≤ b.1) :
    (empty ttl).answers insert uses = recollections ttl [] uses ∧
    (empty ttl).answers insert uses = (empty ttl).answers insertOnly uses ∧
    ∀ before now key value rest, uses = before ++ (now, .insert key value) :: rest →
      let stored := ((empty ttl).after insert (before ++ [(now, .insert key value)])).table
      stored.keys.Nodup ∧ ∀ entry, entry ∈ stored.entries ↔ entry = (key, ⟨value, now⟩) ∨
        entry.1 ≠ key ∧ latest before entry.1 = some entry.2 ∧
          now < entry.2.written + ttl.nanoseconds := by
  have hstart : Mirrors (empty ttl : Cache κ ν) [] 0 := mirrors_empty ttl 0
  have hanswers : ∀ {write}, Mirroring write →
      (empty ttl).answers write uses = recollections ttl [] uses :=
    fun hwrite => hwrite.answers hstart (fun _ _ => Nat.zero_le _) hclock
  refine ⟨hanswers mirroring_insert,
    (hanswers mirroring_insert).trans (hanswers mirroring_insertOnly).symm, ?_⟩
  rintro before now key value rest rfl
  obtain ⟨hbefore, -, hbounds⟩ := List.pairwise_append.1 hclock
  obtain ⟨httl, hmirrors⟩ := mirroring_insert.after hstart (fun _ _ => Nat.zero_le _) hbefore
    (Nat.zero_le now) fun use huse => hbounds use huse _ List.mem_cons_self
  rw [after_append]
  refine ⟨(hmirrors.insert key value).nodup, fun entry => ?_⟩
  have hmem := hmirrors.mem_insert key value entry
  rwa [httl] at hmem

/-- A value that is swept out, and one that is written again. -/
def renewal : List (Nat × Use Nat Nat) :=
  [(0, .insert 1 31), (5, .insert 2 33), (9, .get 1), (12, .insert 2 51),
    (12, .get 1), (21, .get 2), (22, .get 2)]

theorem answers_of_sweeping_renewal : (renewal.Pairwise fun a b => a.1 ≤ b.1) ∧
    (empty ⟨10⟩).answers insert renewal = [some 31, none, some 51, none] ∧
    ((empty ⟨10⟩).after insert (renewal.take 4)).table.keys = [2] := by
  have hclock : renewal.Pairwise fun a b => a.1 ≤ b.1 := by decide
  exact ⟨hclock, (answers_of_sweeping ⟨10⟩ renewal hclock).1.trans (by decide), by decide⟩

end Cache
end SkyResolver
