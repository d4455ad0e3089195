/-! Tables: values under keys, each key at most once. Writing under a key drops what was there and
puts the new entry last. -/
namespace SkyResolver

/-- Values under keys, in the order of writing. -/
structure Table (κ ν : Type) where
  entries : List (κ × ν) := []

namespace Table
variable {κ ν : Type} [DecidableEq κ]

def empty : Table κ ν := ⟨[]⟩

def get? (t : Table κ ν) (k : κ) : Option ν := t.entries.lookup k

def insert (t : Table κ ν) (k : κ) (v : ν) : Table κ ν :=
  ⟨t.entries.filter (fun e => e.1 != k) ++ [(k, v)]⟩

def keep (t : Table κ ν) (p : ν → Bool) : Table κ ν := ⟨t.entries.filter fun e => p e.2⟩

def insertAll (t : Table κ ν) (entries : List (κ × ν)) : Table κ ν :=
  entries.foldl (fun t e => t.insert e.1 e.2) t

/-- The table with the entries of a list; of two entries under one key the later one counts. -/
def ofList (entries : List (κ × ν)) : Table κ ν := empty.insertAll entries

def size (t : Table κ ν) : Nat := t.entries.length

@[simp] theorem get?_empty (k : κ) : (empty : Table κ ν).get? k = none := rfl

theorem lookup_filter_ne (l : List (κ × ν)) {k j : κ} (h : j ≠ k) :
    (l.filter fun e => e.1 != k).lookup j = l.lookup j := by
  induction l with
  | nil => rfl
  | cons e l ih =>
    obtain ⟨i, v⟩ := e
    by_cases hi : i = k
    · subst hi
      have hj : (j == i) = false := by simpa using h
      simp [List.lookup_cons, hj, ih]
    · by_cases hj : j = i
      · subst hj
        simp [hi]
      · have hj' : (j == i) = false := by simpa using hj
        simp [hi, List.lookup_cons, hj', ih]

theorem lookup_filter_self (l : List (κ × ν)) (k : κ) :
    (l.filter fun e => e.1 != k).lookup k = none := by
  induction l with
  | nil => rfl
  | cons e l ih =>
    obtain ⟨i, v⟩ := e
    by_cases hi : i = k
    · simp [hi, ih]
    · have hk : (k == i) = false := by simpa using fun h : k = i => hi h.symm
      simp [hi, List.lookup_cons, hk, ih]

theorem lookup_append (l m : List (κ × ν)) (k : κ) :
    (l ++ m).lookup k = (l.lookup k).or (m.lookup k) := by
  induction l with
  | nil => simp
  | cons e l ih =>
    obtain ⟨i, v⟩ := e
    by_cases hi : k = i
    · simp [hi]
    · have hk : (k == i) = false := by simpa using hi
      simp [List.lookup_cons, hk, ih]

@[simp] theorem get?_insert_self (t : Table κ ν) (k : κ) (v : ν) :
    (t.insert k v).get? k = some v := by
  simp [get?, insert, lookup_append, lookup_filter_self]

theorem get?_insert_of_ne (t : Table κ ν) {k j : κ} (v : ν) (h : j ≠ k) :
    (t.insert k v).get? j = t.get? j := by
  have hj : (j == k) = false := by simpa using h
  simp [get?, insert, lookup_append, lookup_filter_ne _ h, List.lookup_cons, hj]

end Table
end SkyResolver
