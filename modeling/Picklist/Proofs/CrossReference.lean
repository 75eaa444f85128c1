/-
# Every cross-reference can be answered

Enrichment points an element at the value list by a descriptor with two constants.  A
service made from the enriched schema exposes that list, the plugin gives it a handler, and
a read that passes the two constants back is answered with the values of the element.

* `enumOf?_enrich` : enriching a schema keeps the enumeration of an element;
* `rows?_of_constants` : a request with both constants is answered from the enumeration;
* `crossReference_answered` : the whole way from the settings to the rows.
-/
import Picklist.Plugin
import Picklist.Proofs.Document
import Picklist.Proofs.Enrichment.Effect
import Picklist.Proofs.Filter.Combine
import Picklist.Proofs.Service

namespace Picklist

namespace Enrichment

/-! ## What the enriched schema holds -/

@[simp] theorem enum?_wired (settings : Settings) (name : String) (d : Definition) :
    (wired settings name d).enum? = d.enum? := by
  unfold wired
  split <;> rfl

theorem type?_annotateElement (settings : Settings) (entity name : String) (e : Element) :
    (annotateElement settings entity name e).type? = e.type? ∧
      (annotateElement settings entity name e).enum? = e.enum? := by
  unfold annotateElement
  split <;> exact ⟨rfl, rfl⟩

/-- The elements of an eligible entity after a run. -/
theorem element?_enrich (settings : Settings) {s : Schema} {n : String} {d : Definition}
    (hget : s.get? n = some d) (helig : Eligible d) (name : String) :
    (enrich settings s).1.element? n name =
      (d.elements.get? name).map (annotateElement settings n name) := by
  rw [Schema.element?, get?_enrich_of_some hget, wired, (isEligible_iff d).2 helig,
    if_pos rfl, ← get?_elements_annotateEntity]
  rfl

/-- A run keeps the enumeration of an element. -/
theorem enumOf?_enrich (settings : Settings) {s : Schema} {e : Element} {enum : Enumeration}
    (h : s.enumOf? e = some enum) (entity name : String) :
    (enrich settings s).1.enumOf? (annotateElement settings entity name e) = some enum := by
  obtain ⟨htype, henum⟩ := type?_annotateElement settings entity name e
  unfold Schema.enumOf? at h ⊢
  rw [htype, henum]
  cases hinline : e.enum? with
  | some inline =>
      rw [hinline] at h
      exact h
  | none =>
      rw [hinline] at h
      simp only [Option.bind_eq_bind, Option.bind_eq_some_iff] at h ⊢
      obtain ⟨t, ht, n, hn, d, hd, hde⟩ := h
      refine ⟨t, ht, n, hn, wired settings n d, get?_enrich_of_some hd, ?_⟩
      rw [enum?_wired, hde]

/-- An element that gets a descriptor holds it after a run. -/
theorem valueList?_annotateElement (settings : Settings) (entity name : String) {e : Element}
    (hmark : Marked e) (hlist : e.annotations.truthy .valueList = false) :
    (annotateElement settings entity name e).annotations.valueList? =
      some (.forElement settings.entity entity name) := by
  have h := (wiredElement_annotateElement settings entity name hmark).valueList
  rw [if_pos hlist] at h
  rw [Annotations.valueList?, h]

end Enrichment

/-! ## Requests -/

/-- The constants that two conditions in a row bind. -/
theorem Filter.constant?_eq_and_eq (a b column : String) (v w : Scalar) :
    ((Filter.eq a v).and (Filter.eq b w)).constant? column =
      if a = column then some v else if b = column then some w else none := by
  rw [Filter.constant?_and, Filter.constant?_eq, Filter.constant?_eq]
  split <;> rfl

namespace Request

/-- A constant in the filter that counts as given is the constant of its column. -/
theorem constant?_of_bound {r : Request} {column : String} {v : Scalar}
    (h : r.bound? column = some v) (hv : v.truthy = true) : r.constant? column = some v := by
  rw [constant?, h, Option.filter_some, hv]
  rfl

/-- A parameter that counts as given is the constant of a column that the filter leaves
free. -/
theorem constant?_of_data {r : Request} {column : String} {v : Scalar}
    (h : r.bound? column = none) (hdata : r.data.get? column = some v)
    (hv : v.truthy = true) : r.constant? column = some v := by
  rw [constant?, h, hdata, Option.filter_some, hv]
  rfl

end Request

namespace Resolution

/-- A request asks for an element of an entity: it binds the two constants in its filter,
or it has them as parameters and its filter binds nothing. -/
inductive AsksFor (entity element : String) (r : Request) : Prop where
  | filter (h : r.filter =
      some ((Filter.eq "entityName" (.text entity)).and (Filter.eq "fieldName" (.text element))))
  | parameters (hfree : ∀ column, r.bound? column = none)
      (hentity : r.data.get? "entityName" = some (.text entity))
      (helement : r.data.get? "fieldName" = some (.text element))

theorem truthy_text {t : String} (h : t ≠ "") : Scalar.truthy (.text t) = true := by
  simpa [Scalar.truthy] using h

/-- A request that asks for an element has its two constants, and asks for all values. -/
theorem AsksFor.constants {entity element : String} {r : Request}
    (h : AsksFor entity element r) (hentity : entity ≠ "") (helement : element ≠ "") :
    r.constant? "entityName" = some (.text entity) ∧
      r.constant? "fieldName" = some (.text element) ∧ r.bound? "value" = none := by
  cases h with
  | filter hr =>
      have hbound : ∀ column, r.bound? column =
          if "entityName" = column then some (.text entity)
          else if "fieldName" = column then some (.text element) else none := by
        intro column
        rw [Request.bound?, hr, Option.bind_some, Filter.constant?_eq_and_eq]
      exact ⟨Request.constant?_of_bound (hbound _) (truthy_text hentity),
        Request.constant?_of_bound (hbound _) (truthy_text helement), hbound _⟩
  | parameters hfree hdata hname =>
      exact ⟨Request.constant?_of_data (hfree _) hdata (truthy_text hentity),
        Request.constant?_of_data (hfree _) hname (truthy_text helement), hfree _⟩

/-- A request with both constants that asks for all values is answered from the
enumeration. -/
theorem rows?_of_constants {s : Schema} {r : Request} {entity element : String}
    {enum : Enumeration} (hentity : r.constant? "entityName" = some (.text entity))
    (helement : r.constant? "fieldName" = some (.text element))
    (hvalue : r.bound? "value" = none) (henum : enumeration? s entity element = some enum) :
    rows? s r = some (enum.values.map fun v => ⟨v, entity, element⟩) := by
  have hadmits : enum.values.filter (admits r) = enum.values := by
    apply List.filter_eq_self.2
    intro v _
    rw [admits, hvalue]
    rfl
  simp [rows?, hentity, helement, Scalar.display, henum, hadmits]

end Resolution

/-! ## From the settings to the rows -/

/-- The rows of an element of an entity, one for each value of an enumeration. -/
def rowsOf (enum : Enumeration) (entity element : String) : List Row :=
  enum.values.map fun v => ⟨v, entity, element⟩

section Wiring

variable {settings : Settings} {s : Schema} {entity service element : String}
  {d : Definition} {e : Element} {enum : Enumeration}

/-- A service that owns an eligible entity exposes the value list after a run, unless
something else than an entity stands in its place. -/
theorem exposes_enrich (hsingle : QualifiedName.isSingle settings.entity = true)
    (hget : s.get? entity = some d) (helig : Enrichment.Eligible d)
    (hown : s.owningService? entity = some service)
    (hplace : ∀ x, s.get? (QualifiedName.join service settings.entity) = some x →
      x.kind = .entity) (kind : ServiceKind) :
    (Service.ofSchema (Enrichment.enrich settings s).1 service kind).exposes
      settings.entity = true := by
  refine Service.exposes_ofSchema.2 ⟨hsingle, ?_⟩
  -- either the projection is new, or an entity of the author stands in its place
  cases hjoin : s.get? (QualifiedName.join service settings.entity) with
  | none =>
      exact ⟨_, Enrichment.get?_enrich_join ⟨entity, d, hget, helig, hown⟩ hjoin, rfl⟩
  | some x =>
      refine ⟨_, Enrichment.get?_enrich_of_some hjoin, ?_⟩
      rw [Enrichment.kind_wired, hplace x hjoin]

/-- An entity with an owner has a name that is not empty. -/
theorem ne_empty_of_owned (hown : s.owningService? entity = some service) : entity ≠ "" := by
  obtain ⟨-, x, -, rfl⟩ := Schema.owningService?_eq_some_iff.1 hown
  exact QualifiedName.join_ne_empty service x

/-- The handler of a schema answers a request that asks for an element by the values of its
enumeration, whatever the rows were. -/
theorem valueListHandler_of_asksFor {r : Request}
    (henum : Resolution.enumeration? s entity element = some enum) (hentity : entity ≠ "")
    (helement : element ≠ "") (hasks : Resolution.AsksFor entity element r)
    (rows : List Row) :
    Service.valueListHandler s rows r = rowsOf enum entity element := by
  obtain ⟨h₁, h₂, h₃⟩ := hasks.constants hentity helement
  rw [Service.valueListHandler, Resolution.apply,
    Resolution.rows?_of_constants h₁ h₂ h₃ henum]
  rfl

/-- The first time services are served, one that wants the value list gets its handler and
is reported. -/
theorem onServed_of_wantsHandler {list : List Service} {i : Nat} {served : Service}
    (hi : list[i]? = some served) (hwants : served.wantsHandler settings.entity = true) :
    served.name ∈ ((Plugin.ofSettings settings).onServed s list).2.2 ∧
      ((Plugin.ofSettings settings).onServed s list).2.1[i]? =
        some (served.afterRead settings.entity (Service.valueListHandler s)) := by
  change served.name ∈ (Service.register s settings.entity list).2 ∧
    (Service.register s settings.entity list).1[i]? = _
  refine ⟨Service.name_mem_register (List.mem_of_getElem? hi) hwants, ?_⟩
  rw [Service.getElem?_register, hi, Option.map_some, if_pos hwants]

/-- **Every cross-reference can be answered.**  After a schema was loaded, the service that
owns a marked element exposes the value list and gets its handler when it is first served;
and a read that asks for the two constants of the descriptor on the element, in its filter
or by its parameters, is answered by the values of the element in their order. -/
theorem crossReference_answered {text : String} (hread : Settings.read text = .ok settings)
    (hnew : s.flag settings.metaKey = false) (hget : s.get? entity = some d)
    (helig : Enrichment.Eligible d) (hown : s.owningService? entity = some service)
    (hplace : ∀ x, s.get? (QualifiedName.join service settings.entity) = some x →
      x.kind = .entity)
    (helement : d.elements.get? element = some e) (hmark : Enrichment.Marked e)
    (hname : element ≠ "") (hlist : e.annotations.truthy .valueList = false)
    (henum : s.enumOf? e = some enum) :
    let plugin := Plugin.ofSettings settings
    let enriched := (plugin.onLoaded s).1
    let served := Service.ofSchema enriched service .application
    served.exposes plugin.valueList = true ∧
      ∃ e' l k₁ k₂, enriched.element? entity element = some e' ∧
        e'.annotations.valueList? = some l ∧
        l.constant? "entityName" = some k₁ ∧ l.constant? "fieldName" = some k₂ ∧
        ∀ (services : List Service) (i : Nat), services[i]? = some served →
          service ∈ (plugin.onServed enriched services).2.2 ∧
            ∃ served', (plugin.onServed enriched services).2.1[i]? = some served' ∧
              ∀ r, Resolution.AsksFor k₁ k₂ r → ∀ rows,
                served'.dispatch plugin.valueList rows r = rowsOf enum entity element := by
  intro plugin enriched served
  have henriched : enriched = (Enrichment.enrich settings s).1 :=
    congrArg Prod.fst (Enrichment.run_of_not_flag hnew)
  have hexposes : served.exposes plugin.valueList = true := by
    have hsingle := (Settings.names_of_read hread).2.1
    change (Service.ofSchema enriched service .application).exposes settings.entity = true
    rw [henriched]
    exact exposes_enrich hsingle hget helig hown hplace .application
  have hwants : served.wantsHandler settings.entity = true := by
    rw [Service.wantsHandler, Bool.and_eq_true]
    exact ⟨rfl, hexposes⟩
  have hfound : enriched.element? entity element =
      some (Enrichment.annotateElement settings entity element e) := by
    rw [henriched, Enrichment.element?_enrich settings hget helig, helement, Option.map_some]
  have hvalues : Resolution.enumeration? enriched entity element = some enum := by
    rw [Resolution.enumeration?, hfound, henriched]
    exact Enrichment.enumOf?_enrich settings henum entity element
  refine ⟨hexposes, _, _, entity, element, hfound,
    Enrichment.valueList?_annotateElement settings entity element hmark hlist, ?_, ?_, ?_⟩
  · rw [ValueList.constant?_forElement, if_pos rfl]
  · rw [ValueList.constant?_forElement, if_neg (by decide), if_pos rfl]
  · intro services i hi
    obtain ⟨hmem, hserved⟩ := onServed_of_wantsHandler (s := enriched) hi hwants
    refine ⟨hmem, _, hserved, ?_⟩
    intro r hasks rows
    -- the handler of the value list runs last, and it does not look at the rows before it
    rw [show plugin.valueList = settings.entity from rfl, Service.dispatch_afterRead]
    exact valueListHandler_of_asksFor hvalues (ne_empty_of_owned hown) hname hasks _

end Wiring

open Enrichment in
/-- In the shop, with a value list of another name, the marked element is answered by its two
values. -/
theorem crossReference_answered_shop :
    Settings.read "[value_list]\nentity=\"Values\"\n" = .ok { entity := "Values" } ∧
      ∃ k₁ k₂ served, ∀ r, Resolution.AsksFor k₁ k₂ r → ∀ rows,
        Service.dispatch served "Values" rows r =
          [⟨.text "O", "Sales.Orders", "status"⟩, ⟨.text "CLOSED", "Sales.Orders", "status"⟩] := by
  have hread : Settings.read "[value_list]\nentity=\"Values\"\n" = .ok { entity := "Values" } :=
    eq_ok_of_toOption (by decide +kernel)
  have hfree : shop.get? (QualifiedName.join "Sales" "Values") = none :=
    Schema.contains_eq_false_iff.1 (by decide)
  have howner : shop.owningService? "Sales.Orders" = some "Sales" := by decide
  have helement : orders.elements.get? "status" = some status := by
    simp [orders, Definition.entity]
  obtain ⟨-, e', l, k₁, k₂, -, -, -, -, h⟩ :=
    crossReference_answered (s := shop) hread (by decide) get?_shop_orders
      eligible_orders howner
      (fun x hx => by rw [hfree] at hx; cases hx)
      helement ((isMarked_iff status).1 (by decide)) (by decide) (by decide) rfl
  obtain ⟨-, served', -, hanswer⟩ := h [_] 0 rfl
  exact ⟨hread, k₁, k₂, served', hanswer⟩

end Picklist
