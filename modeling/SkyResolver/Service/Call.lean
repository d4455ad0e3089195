import SkyResolver.Client.Basic

/-! The calls that reach catalogs and the index, kept beside the world that answers them. -/
namespace SkyResolver

inductive Call where
  | names (catalog : Catalog) (names : List String)
  | identifiers (catalog : Catalog) (identifiers : List String)
  | cone (catalog : Catalog) (coordinate : Coordinate) (radius : Float) (limit : Nat)
  | verify (field : String) (identifiers : List String)
  | search (query : String)

/-- A world and the calls that were made in it, in their order. -/
structure Recorded (σ : Type) where
  world : σ
  calls : List Call

def recording {σ α : Type} (call : Call) (step : StateM σ α) : StateM (Recorded σ) α := fun r =>
  let (result, world) := step.run r.world
  (result, { world, calls := r.calls ++ [call] })

@[simp] theorem calls_recording {σ α : Type} (call : Call) (step : StateM σ α) (r : Recorded σ) :
    (recording call step r).2.calls = r.calls ++ [call] := rfl

def CatalogClient.recorded {σ : Type} (catalog : Catalog) (client : CatalogClient σ) :
    CatalogClient (Recorded σ) where
  maxRadius := client.maxRadius
  maxResults := client.maxResults
  timeout := client.timeout
  names asked := recording (.names catalog asked) (client.names asked)
  lookup asked := recording (.names catalog asked) (client.lookup asked)
  identifiers asked := recording (.identifiers catalog asked) (client.identifiers asked)
  cone coordinate radius limit :=
    recording (.cone catalog coordinate radius limit) (client.cone coordinate radius limit)

def IndexClient.recorded {σ : Type} (index : IndexClient σ) : IndexClient (Recorded σ) where
  verify field asked := recording (.verify field asked) (index.verify field asked)
  search query := recording (.search query) (index.search query)

end SkyResolver
