import SkyResolver.Duration
import SkyResolver.Table

/-! A cache whose entries expire. An entry is found as long as less than `ttl` has passed since it
was written; expired entries stay until the next write drops them. Time is a number of nanoseconds
since an arbitrary start, given to each operation. -/
namespace SkyResolver

structure Cached (ν : Type) where
  value : ν
  written : Nat

/-- Values under keys that expire `ttl` after they were written. -/
structure Cache (κ ν : Type) where
  ttl : Duration
  table : Table κ (Cached ν) := ⟨[]⟩

namespace Cache
variable {κ ν : Type} [DecidableEq κ]

def empty (ttl : Duration) : Cache κ ν := ⟨ttl, Table.empty⟩

def isFresh (ttl : Duration) (now : Nat) (entry : Cached ν) : Bool :=
  decide (now - entry.written < ttl.nanoseconds)

/-- The value under a key, unless it has expired. -/
def get? (cache : Cache κ ν) (now : Nat) (key : κ) : Option ν :=
  ((cache.table.get? key).filter (isFresh cache.ttl now)).map Cached.value

/-- Drops what has expired and puts a value under a key. -/
def insert (cache : Cache κ ν) (now : Nat) (key : κ) (value : ν) : Cache κ ν :=
  { cache with table := (cache.table.keep (isFresh cache.ttl now)).insert key ⟨value, now⟩ }

/-- The number of entries, with those that have expired but were not dropped yet. -/
def size (cache : Cache κ ν) : Nat := cache.table.size

end Cache
end SkyResolver
