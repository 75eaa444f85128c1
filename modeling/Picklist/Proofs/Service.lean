/-
# Exposed entities and handlers of a service

* `Schema.owningService?_eq_some_iff` : the service that owns a name is the one right above it;
* `Service.exposes_ofSchema` : a service made from a schema exposes exactly the entities
  right below its name;
* `Service.handlersOf_afterRead` : a new handler runs after those of its entity;
* `Service.getElem?_register` and `Service.name_mem_register` : which services get the
  value-list handler.
-/
import Picklist.Proofs.Node
import Picklist.Proofs.QualifiedName
import Picklist.Service

namespace Picklist

/-! ## Owners -/

namespace Schema

/-- A name is defined as something of a kind. -/
def DefinedAs (s : Schema) (kind : Kind) (n : String) : Prop :=
  ∃ d, s.get? n = some d ∧ d.kind = kind

variable {s : Schema} {n service : String}

/-- The check for a service finds the names that are defined as one. -/
theorem any_isService_iff :
    (s.get? n).any Definition.isService = true ↔ s.DefinedAs .service n := by
  unfold DefinedAs
  cases s.get? n with
  | none => simp
  | some d => simp [Definition.isService]

/-- A service owns a name when it is defined, and the name is a single segment below it. -/
theorem owningService?_eq_some_iff :
    s.owningService? n = some service ↔
      s.DefinedAs .service service ∧
        ∃ x, QualifiedName.isSingle x = true ∧ n = QualifiedName.join service x := by
  unfold owningService?
  rw [Option.bind_eq_bind, Option.bind_eq_some_iff, ← any_isService_iff]
  constructor
  · rintro ⟨owner, howner, h⟩
    split at h
    · rename_i hservice
      cases h
      exact ⟨hservice, QualifiedName.owner?_eq_some_iff.1 howner⟩
    · cases h
  · rintro ⟨hservice, hname⟩
    exact ⟨service, QualifiedName.owner?_eq_some_iff.2 hname, if_pos hservice⟩

end Schema

namespace Service

/-! ## Exposed entities -/

/-- A service made from a schema exposes the entities right below its name. -/
theorem exposes_ofSchema {s : Schema} {name x : String} {kind : ServiceKind} :
    (ofSchema s name kind).exposes x = true ↔
      QualifiedName.isSingle x = true ∧
        ∃ d, s.get? (QualifiedName.join name x) = some d ∧ d.kind = .entity := by
  rw [exposes, ofSchema, ofEntities, Dict.contains_iff, Dict.mem_keys_setOf,
    List.mem_filterMap]
  constructor
  · rintro ⟨⟨n, d⟩, hmem, hbelow⟩
    obtain ⟨hx, rfl⟩ := QualifiedName.below?_eq_some_iff.1 hbelow
    obtain ⟨hentry, hkind⟩ := List.mem_filter.1 hmem
    exact ⟨hx, d, Dict.get?_eq_some_iff.2 hentry, of_decide_eq_true hkind⟩
  · rintro ⟨hx, d, hget, hkind⟩
    refine ⟨(QualifiedName.join name x, d), ?_,
      QualifiedName.below?_eq_some_iff.2 ⟨hx, rfl⟩⟩
    exact List.mem_filter.2 ⟨Dict.get?_eq_some_iff.1 hget, decide_eq_true hkind⟩

/-! ## Handlers -/

/-- A new handler runs after those of its entity, and other entities keep theirs. -/
theorem handlersOf_afterRead (s : Service) (entity other : String) (handler : ReadHandler) :
    (s.afterRead entity handler).handlersOf other =
      if other = entity then s.handlersOf entity ++ [handler] else s.handlersOf other := by
  rw [handlersOf, afterRead, Dict.get?_insert]
  split
  · rfl
  · rfl

/-- A new handler leaves all others where they are. -/
theorem handlersOf_prefix_afterRead (s : Service) (entity other : String)
    (handler : ReadHandler) :
    s.handlersOf other <+: (s.afterRead entity handler).handlersOf other := by
  rw [handlersOf_afterRead]
  split
  · rename_i h
    exact h ▸ List.prefix_append _ _
  · exact List.prefix_rfl

/-- Reads run a new handler of their entity last. -/
theorem dispatch_afterRead (s : Service) (entity : String) (handler : ReadHandler)
    (rows : List Row) (r : Request) :
    (s.afterRead entity handler).dispatch entity rows r =
      handler (s.dispatch entity rows r) r := by
  rw [dispatch, handlersOf_afterRead, if_pos rfl, List.foldl_append]
  rfl

/-! ## Registration -/

/-- Registration adds the value-list handler to the services that want it, and keeps the
services in their places. -/
theorem getElem?_register (schema : Schema) (list : String) (services : List Service)
    (i : Nat) :
    (register schema list services).1[i]? =
      services[i]?.map fun s =>
        if s.wantsHandler list then s.afterRead list (valueListHandler schema) else s :=
  List.getElem?_map

theorem name_mem_register {schema : Schema} {list : String} {services : List Service}
    {s : Service} (hs : s ∈ services) (hwants : s.wantsHandler list = true) :
    s.name ∈ (register schema list services).2 :=
  List.mem_map_of_mem (List.mem_filter.2 ⟨hs, hwants⟩)

end Service

end Picklist
