/-
# Belonging to a service

Enrichment asks for the service that owns a name and finds it by taking off the last segment.  A
service that is served looks for the names that it exposes and finds them by taking off its own name
in front.  Both find the same.

* `owningService?_iff_exposes` : an entity is owned by a service exactly when the service exposes
  what the entity's name adds to its own;
* `definedAs_of_mem_services` : what a run reports as a service is one, and has a projection;
* `ownership_exposure` : both ways agree, also on what a run defines.
-/
import Picklist.Proofs.Document
import Picklist.Proofs.Enrichment.Rerun
import Picklist.Proofs.Service
import Picklist.Settings.Reader

namespace Picklist

open Enrichment QualifiedName

variable {s : Schema} {n x service : String} {kind : ServiceKind} {settings : Settings}

/-! ## Entities -/

/-- A service exposes the single segments that name an entity below it. -/
theorem exposes_iff_definedAs :
    (Service.ofSchema s service kind).exposes x = true ↔
      s.DefinedAs .entity (join service x) ∧ '.' ∉ x.toList := by
  rw [Service.exposes_ofSchema, isSingle_iff, and_comm]
  rfl

/-- An entity is owned by a service exactly when the service is defined and exposes what the name of
the entity adds to its own. -/
theorem owningService?_iff_exposes (hn : s.DefinedAs .entity n) :
    s.owningService? n = some service ↔
      s.DefinedAs .service service ∧
        ∃ x, (Service.ofSchema s service kind).exposes x = true ∧ n = join service x := by
  rw [Schema.owningService?_eq_some_iff]
  refine and_congr_right fun _ => exists_congr fun x => and_congr_left fun hname => ?_
  subst hname
  rw [exposes_iff_definedAs, isSingle_iff]
  exact (and_iff_right hn).symm

/-! ## Projections -/

/-- A service that a run reports is defined after the run, and its projection is an entity. -/
theorem definedAs_of_mem_services (hservice : service ∈ (run settings s).2.services) :
    (run settings s).1.DefinedAs .service service ∧
      (run settings s).1.DefinedAs .entity (join service settings.entity) := by
  cases hflag : s.flag settings.metaKey with
  | true =>
      rw [run_of_flag hflag] at hservice
      cases hservice
  | false =>
      rw [run_of_not_flag hflag] at hservice ⊢
      obtain ⟨hown, hfree⟩ := mem_services.1 hservice
      refine ⟨?_, projection settings, get?_enrich_join hown hfree, rfl⟩
      obtain ⟨n, d, -, -, howner⟩ := hown
      have hdefined := (Schema.owningService?_eq_some_iff.1 howner).1
      rw [← Schema.any_isService_iff, ← isService_enrich settings, Schema.any_isService_iff]
        at hdefined
      exact hdefined

/-- **Owning is exposing.**  The service that owns an entity is the defined one that exposes it under
the rest of its name.  What a service exposes are the names without a dot that name an entity below
it.  So with settings that were read, every service that a run reports owns its projection, and
exposes it under the name of the value list. -/
theorem ownership_exposure (s : Schema) :
    (∀ n service kind, s.DefinedAs .entity n →
      (s.owningService? n = some service ↔
        s.DefinedAs .service service ∧
          ∃ x, (Service.ofSchema s service kind).exposes x = true ∧ n = join service x)) ∧
      (∀ service kind x, (Service.ofSchema s service kind).exposes x = true ↔
        s.DefinedAs .entity (join service x) ∧ '.' ∉ x.toList) ∧
      ∀ text settings, Settings.read text = .ok settings →
        ∀ service ∈ (run settings s).2.services,
          (run settings s).1.owningService? (join service settings.entity) = some service ∧
            ∀ kind, (Service.ofSchema (run settings s).1 service kind).exposes settings.entity =
              true := by
  refine ⟨fun n service kind hn => owningService?_iff_exposes hn,
    fun service kind x => exposes_iff_definedAs, ?_⟩
  intro text settings hread service hservice
  obtain ⟨hdefined, hentity⟩ := definedAs_of_mem_services hservice
  have hsingle : '.' ∉ settings.entity.toList := isSingle_iff.1 (Settings.names_of_read hread).2.1
  have hexposes : ∀ kind,
      (Service.ofSchema (run settings s).1 service kind).exposes settings.entity = true :=
    fun kind => exposes_iff_definedAs.2 ⟨hentity, hsingle⟩
  refine ⟨?_, hexposes⟩
  exact (owningService?_iff_exposes hentity).2 ⟨hdefined, _, hexposes .application, rfl⟩

/-- The shop with a service inside its service. -/
def branches : Schema :=
  (shop.insert "Sales.Eu" Definition.service).insert "Sales.Eu.Orders" orders

/-- The orders of the inner service belong to it, not to the outer one, and so does the projection
that a run defines in it. -/
theorem ownership_exposure_branches :
    branches.DefinedAs .entity "Sales.Eu.Orders" ∧
      branches.owningService? "Sales.Eu.Orders" = some "Sales.Eu" ∧
      (∀ kind, (Service.ofSchema branches "Sales" kind).exposes "Eu.Orders" = false) ∧
      Settings.read "[value_list]\nentity=\"Values\"\n" = .ok { entity := "Values" } ∧
      "Sales.Eu" ∈ (run { entity := "Values" } branches).2.services ∧
      (run { entity := "Values" } branches).1.owningService? "Sales.Eu.Values" =
        some "Sales.Eu" := by
  have hentity : branches.DefinedAs .entity "Sales.Eu.Orders" := ⟨orders, rfl, rfl⟩
  have hservice : branches.DefinedAs .service "Sales.Eu" := ⟨Definition.service, rfl, rfl⟩
  have hread : Settings.read "[value_list]\nentity=\"Values\"\n" = .ok { entity := "Values" } :=
    eq_ok_of_toOption (by decide +kernel)
  have hmem : "Sales.Eu" ∈ (run { entity := "Values" } branches).2.services := by decide
  obtain ⟨howner, hexposes, hrun⟩ := ownership_exposure branches
  refine ⟨hentity, ?_, fun kind => ?_, hread, hmem, (hrun _ _ hread _ hmem).1⟩
  · refine (howner _ _ .application hentity).2 ⟨hservice, "Orders", ?_, rfl⟩
    exact (hexposes _ _ _).2 ⟨hentity, by decide⟩
  · have hdotted : ¬(branches.DefinedAs .entity (join "Sales" "Eu.Orders") ∧
        '.' ∉ "Eu.Orders".toList) := fun h => h.2 (by decide)
    exact Bool.eq_false_iff.2 ((hexposes "Sales" kind "Eu.Orders").not.2 hdotted)

end Picklist
