import SkyResolver.Proofs.Service.Observation
import SkyResolver.Service.Call

/-! A service whose calls are recorded. The record is only written, never read: whoever does not
look at it sees the same answers and the same worlds as without it. -/
namespace SkyResolver

section Recorded
variable {σ : Type}

/-- The session without the record. -/
def Session.forget (session : Session (Recorded σ)) : Session σ :=
  ⟨session.cache, session.world.world⟩

/-- The service with its calls recorded. -/
def Service.recorded (service : Service σ) : Service (Recorded σ) where
  targets := service.targets
  defaultRadius := service.defaultRadius
  catalogs catalog := (service.catalogs catalog).map (CatalogClient.recorded catalog)
  index := service.index.map IndexClient.recorded
  verifyCones := service.verifyCones
  currentYear := service.currentYear
  clock r := service.clock r.world
  overtaken := service.overtaken

lemma shadows_recording {α : Type} (call : Call) (step : StateM σ α) :
    Shadows Recorded.world (recording call step) step := fun _ => ⟨rfl, rfl⟩

lemma watches_recorded (service : Service σ) : service.recorded.Watches Recorded.world service where
  targets := rfl
  defaultRadius := rfl
  catalogs catalog := by
    change Option.Rel _ ((service.catalogs catalog).map (CatalogClient.recorded catalog)) _
    cases service.catalogs catalog with
    | none => exact .none
    | some client =>
      refine .some ⟨rfl, rfl, rfl, ?_, ?_, ?_, ?_⟩ <;>
      · intros
        exact shadows_recording _ _
  index := by
    change Option.Rel _ (service.index.map IndexClient.recorded) _
    cases service.index with
    | none => exact .none
    | some index => exact .some ⟨fun _ _ => shadows_recording _ _, fun _ => shadows_recording _ _⟩
  verifyCones := rfl
  currentYear := rfl
  clock _ := rfl
  overtaken := rfl

/-- A recorded expansion gives what the expansion gives without the record. -/
lemma shadows_expand (service : Service σ) (query : String) :
    Shadows Session.forget (service.recorded.expand query).run (service.expand query).run :=
  (watches_recorded service).expand query

end Recorded

end SkyResolver
