import SkyResolver.Service.Basic
import SkyResolver.Text.Upper

/-! Looking up names through the cache. A lookup starts with a look into the cache, and what is not
there is asked for at once; it finishes when the answer is written into the cache. Between the two,
other lookups may start and finish. -/
namespace SkyResolver
open SkyResolver.Text

def cacheKey (catalog : Catalog) (name : String) : Catalog × List Char :=
  (catalog, upper name.toList)

structure NameLookup where
  catalog : Catalog
  /-- The records that were in the cache. -/
  cached : ObjectTable
  /-- The answer about the other names, if there are any. -/
  asked : Option (Except CatalogFault ObjectTable)

def remember (cache : NameCache) (now : Nat) (catalog : Catalog)
    (found : List (String × SkyObject)) : NameCache :=
  found.foldl (fun cache (name, record) => cache.insert now (cacheKey catalog name) record) cache

namespace Service
variable {σ : Type}

def askNames (service : Service σ) (catalog : Catalog) (names : List String) :
    StateM σ (Except CatalogFault ObjectTable) := do
  match service.catalogs catalog with
  | some client => do
    let reply ← client.names names
    pure (reply.inTime client.timeout)
  | none => pure (.error (.transport .notConfigured))

/-- Starts to look up names in a catalog. -/
def startLookup (service : Service σ) (catalog : Catalog) (names : List String) :
    Step σ NameLookup := do
  let session ← get
  let known := names.map fun name =>
    (name, session.cache.get? (service.clock session.world) (cacheKey catalog name))
  let cached :=
    Table.ofList (known.filterMap fun (name, found) => found.map fun record => (name, record))
  match known.filterMap fun (name, found) => if found.isSome then none else some name with
  | [] => pure { catalog, cached, asked := none }
  | misses => do
    let answer ← onWorld (service.askNames catalog misses)
    pure { catalog, cached, asked := some answer }

/-- Finishes a lookup: its answer, if it is one, goes into the cache. -/
def finishLookup (service : Service σ) (lookup : NameLookup) :
    Step σ (Except CatalogFault ObjectTable) :=
  fun session =>
    match lookup.asked with
    | none => (.ok lookup.cached, session)
    | some (.error fault) => (.error fault, session)
    | some (.ok found) =>
      let now := service.clock session.world
      (.ok (lookup.cached.insertAll found.entries),
        { session with cache := remember session.cache now lookup.catalog found.entries })

def findNames (service : Service σ) (catalog : Catalog) (names : List String) :
    Step σ (Except CatalogFault ObjectTable) := do
  service.finishLookup (← service.startLookup catalog names)

/-- A lookup among others, which may have to wait for its end. -/
inductive Started where
  | done (result : Except CatalogFault ObjectTable)
  | waiting (lookup : NameLookup)

/-- Starts a lookup among others, and finishes it unless it has to wait. -/
def startAmong (service : Service σ) (late : List Nat) :
    (Catalog × String) × Nat → Step σ Started
  | ((catalog, name), i) => do
    let lookup ← service.startLookup catalog [name]
    if i ∈ late then pure (.waiting lookup)
    else return .done (← service.finishLookup lookup)

def finishLate (service : Service σ) (started : List Started) (i : Nat) :
    Step σ (Nat × Except CatalogFault ObjectTable) := do
  match started[i]? with
  | some (.waiting lookup) => return (i, ← service.finishLookup lookup)
  | some (.done result) => pure (i, result)
  | none => pure (i, .error (.transport .notConfigured))

/-- Looks up single names, all at the same time; the results are in the order of the names. -/
def lookupTogether (service : Service σ) (lookups : List (Catalog × String)) :
    Step σ (List (Except CatalogFault ObjectTable)) := do
  let late := (distinct (service.overtaken lookups.length)).filter (· < lookups.length)
  let started ← lookups.zipIdx.mapM (service.startAmong late)
  let finished ← late.mapM (service.finishLate started)
  pure (started.zipIdx.map fun (s, i) =>
    match s with
    | .done result => result
    | .waiting lookup => (finished.lookup i).getD (.ok lookup.cached))

end Service
end SkyResolver
