/-
# Which handlers a read runs

Handlers come to a service in two ways: one is added for an entity, or the value-list handler of a
schema is registered at a list of services in which the service stands.  Whatever came before, a
registration adds at most one handler, behind all others of its entity.  So a read runs the
handlers of its entity in the order in which they came, and no others.

* `Service.Registration` : the two ways;
* `Service.handlersOf_apply` and `Service.handlersOf_applyAll` : what one registration and what a
  sequence of them adds to the handlers of an entity;
* `Service.LastAnswer` : what value-list handlers in a row make of the rows of a read;
* `Service.dispatch_applyAll` : what a read gives after any registrations.
-/
import Mathlib.Data.List.Induction
import Picklist.Proofs.Lifecycle
import Picklist.Proofs.Resolution

namespace Picklist

namespace Service

/-! ## Registrations -/

/-- How handlers come to a service. -/
inductive Registration where
  /-- A handler is added for an entity. -/
  | single (entity : String) (handler : ReadHandler)
  /-- The value-list handler of a schema is registered at a list of services, in which the service
  stands between others. -/
  | among (before after : List Service) (schema : Schema) (list : String)

namespace Registration

/-- The entity that a registration is for. -/
def entity : Registration → String
  | single entity _ => entity
  | among _ _ _ list => list

/-- The handler that a registration brings to a service, if it brings one. -/
def handler? (s : Service) : Registration → Option ReadHandler
  | single _ handler => some handler
  | among _ _ schema list => if s.Wants list then some (valueListHandler schema) else none

/-- A service after a registration. -/
def apply (s : Service) : Registration → Service
  | single entity handler => s.afterRead entity handler
  | among before after schema list =>
    ((register schema list (before ++ s :: after)).1[before.length]?).getD s

end Registration

/-- A service after a sequence of registrations. -/
def applyAll (regs : List Registration) (s : Service) : Service :=
  regs.foldl Registration.apply s

/-- The handlers that registrations bring to a service for an entity, in their order. -/
def registered (s : Service) (entity : String) (regs : List Registration) : List ReadHandler :=
  (regs.filter fun reg => reg.entity = entity).filterMap (Registration.handler? s)

/-- Registrations in two parts bring the handlers of the one and then those of the other. -/
theorem registered_append (s : Service) (entity : String) (regs regs' : List Registration) :
    registered s entity (regs ++ regs') = registered s entity regs ++ registered s entity regs' := by
  rw [registered, List.filter_append, List.filterMap_append]
  rfl

/-- Registrations for other entities can be left out. -/
theorem registered_filter (s : Service) (entity : String) (regs : List Registration) :
    registered s entity (regs.filter fun reg => reg.entity = entity) =
      registered s entity regs := by
  rw [registered, List.filter_filter, registered]
  simp only [Bool.and_self]

/-! ### One registration -/

section Registration

variable (s : Service) (reg : Registration)

/-- Registering at a list of services does to each what it does to that service alone. -/
theorem apply_among (before after : List Service) (schema : Schema) (list : String) :
    (Registration.among before after schema list).apply s =
      if s.Wants list then s.afterRead list (valueListHandler schema) else s := by
  have hat : (before ++ s :: after)[before.length]? = some s := by simp
  rw [Registration.apply, getElem?_register, hat]
  simp only [Option.map_some, Option.getD_some, wantsHandler_iff]

/-- A registration brings its handler to its entity, behind those that are there. -/
theorem handlersOf_apply (entity : String) :
    (reg.apply s).handlersOf entity = s.handlersOf entity ++ registered s entity [reg] := by
  cases reg with
  | single other handler =>
      rw [Registration.apply, handlersOf_afterRead]
      by_cases h : entity = other
      · simp [registered, Registration.entity, Registration.handler?, h]
      · simp [registered, Registration.entity, h, Ne.symm h]
  | among before after schema list =>
      rw [apply_among]
      by_cases hwants : s.Wants list
      · rw [if_pos hwants, handlersOf_afterRead]
        by_cases h : entity = list
        · simp [registered, Registration.entity, Registration.handler?, h, hwants]
        · simp [registered, Registration.entity, h, Ne.symm h]
      · rw [if_neg hwants]
        by_cases h : list = entity
        · simp [registered, Registration.entity, Registration.handler?, h, h ▸ hwants]
        · simp [registered, Registration.entity, h]

theorem wants_apply (list : String) : (reg.apply s).Wants list ↔ s.Wants list := by
  cases reg with
  | single entity handler => rfl
  | among before after schema other =>
      rw [apply_among]
      split <;> rfl

/-- What a registration brings does not depend on those before it. -/
theorem handler?_apply : Registration.handler? (reg.apply s) = Registration.handler? s := by
  funext other
  cases other with
  | single entity handler => rfl
  | among before after schema list => simp only [Registration.handler?, wants_apply]

end Registration

/-! ### Registrations in a row -/

/-- Registrations bring their handlers to their entities, in their order. -/
theorem handlersOf_applyAll (s : Service) (regs : List Registration) (entity : String) :
    (applyAll regs s).handlersOf entity = s.handlersOf entity ++ registered s entity regs := by
  induction regs generalizing s with
  | nil => exact (List.append_nil _).symm
  | cons reg rest ih =>
      have hrest : registered (reg.apply s) entity rest = registered s entity rest := by
        rw [registered, handler?_apply, registered]
      calc (applyAll (reg :: rest) s).handlersOf entity
          = (reg.apply s).handlersOf entity ++ registered (reg.apply s) entity rest := ih _
        _ = s.handlersOf entity ++ (registered s entity [reg] ++ registered s entity rest) := by
            rw [handlersOf_apply, hrest, List.append_assoc]
        _ = s.handlersOf entity ++ registered s entity ([reg] ++ rest) := by
            rw [registered_append]

/-! ## Value-list handlers -/

open Resolution

/-- What the value-list handlers of some schemas in a row make of the rows of a read: the last
schema that has an answer gives it, and without one the rows stay. -/
inductive LastAnswer (r : Request) (rows : List Row) : List Schema → List Row → Prop where
  | answered {before after : List Schema} {schema : Schema} {answer : List Row}
      (h : rows? schema r = some answer) (hafter : ∀ later ∈ after, rows? later r = none) :
      LastAnswer r rows (before ++ schema :: after) answer
  | unanswered {schemas : List Schema} (h : ∀ schema ∈ schemas, rows? schema r = none) :
      LastAnswer r rows schemas rows

/-- A handler whose schema has an answer gives it, whatever the rows. -/
theorem valueListHandler_of_rows? {schema : Schema} {r : Request} {answer : List Row}
    (h : rows? schema r = some answer) (rows : List Row) :
    valueListHandler schema rows r = answer := by
  rw [valueListHandler, apply, h]

/-- A handler whose schema has no answer leaves the rows. -/
theorem valueListHandler_of_rows?_none {schema : Schema} {r : Request}
    (h : rows? schema r = none) (rows : List Row) : valueListHandler schema rows r = rows := by
  rw [valueListHandler, apply, h]

/-- Handlers whose schemas have no answer leave the rows. -/
theorem foldl_of_rows?_none {r : Request} {schemas : List Schema}
    (h : ∀ schema ∈ schemas, rows? schema r = none) (rows : List Row) :
    (schemas.map valueListHandler).foldl (fun rows handler => handler rows r) rows = rows := by
  induction schemas with
  | nil => rfl
  | cons schema rest ih =>
      rw [List.forall_mem_cons] at h
      rw [List.map_cons, List.foldl_cons, valueListHandler_of_rows?_none h.1]
      exact ih h.2

/-- Value-list handlers in a row give the last answer. -/
theorem lastAnswer_iff {r : Request} {rows result : List Row} {schemas : List Schema} :
    LastAnswer r rows schemas result ↔
      (schemas.map valueListHandler).foldl (fun rows handler => handler rows r) rows = result := by
  constructor
  · intro h
    cases h with
    | answered hanswer hafter =>
        rw [List.map_append, List.map_cons, List.foldl_append, List.foldl_cons,
          valueListHandler_of_rows? hanswer]
        exact foldl_of_rows?_none hafter result
    | unanswered hnone => exact foldl_of_rows?_none hnone rows
  · rintro rfl
    -- the schemas are taken from behind: the last handler either replaces what the others gave, or
    -- it leaves that
    induction schemas using List.reverseRecOn with
    | nil => exact .unanswered (by simp)
    | append_singleton init schema ih =>
        rw [List.map_append, List.foldl_append]
        cases h : rows? schema r with
        | some answer =>
            have hgives := valueListHandler_of_rows? h
            simp only [List.map_cons, List.map_nil, List.foldl_cons, List.foldl_nil, hgives]
            exact .answered h (by simp)
        | none =>
            have hleaves := valueListHandler_of_rows?_none h
            simp only [List.map_cons, List.map_nil, List.foldl_cons, List.foldl_nil, hleaves]
            generalize (init.map valueListHandler).foldl _ rows = result at ih ⊢
            cases ih with
            | answered hanswer hafter =>
                rw [List.append_assoc, List.cons_append]
                refine .answered hanswer (List.forall_mem_append.2 ⟨hafter, ?_⟩)
                exact List.forall_mem_singleton.2 h
            | unanswered hnone =>
                refine .unanswered (List.forall_mem_append.2 ⟨hnone, ?_⟩)
                exact List.forall_mem_singleton.2 h

/-- A value-list handler that runs several times in a row gives what it gives once. -/
theorem foldl_replicate_valueListHandler (schema : Schema) (r : Request) (rows : List Row)
    (n : Nat) :
    (List.replicate (n + 1) (valueListHandler schema)).foldl (fun rows handler => handler rows r)
      rows = valueListHandler schema rows r := by
  have htwice : ∀ rows, valueListHandler schema (valueListHandler schema rows r) r =
      valueListHandler schema rows r := by
    intro rows
    cases h : rows? schema r with
    | some answer => rw [valueListHandler_of_rows? h, valueListHandler_of_rows? h]
    | none => rw [valueListHandler_of_rows?_none h, valueListHandler_of_rows?_none h]
  induction n with
  | zero => rfl
  | succ n ih => rw [List.replicate_succ', List.foldl_append, ih]; exact htwice rows

/-! ## Reads -/

/-- **A read runs the handlers that were registered for its entity.**  Take any service and any
registrations.  A read then runs the handlers that the service had for the entity and those that
were registered for it, in this order; without any it leaves the rows, and registrations for other
entities can be left out.  When all of them are value-list handlers, the last schema that has an
answer gives it; so the handler of one schema can be registered once or several times. -/
theorem dispatch_applyAll (s : Service) (regs : List Registration) (entity : String) :
    (∀ rows r, (applyAll regs s).dispatch entity rows r =
        (s.handlersOf entity ++ registered s entity regs).foldl (fun rows handler => handler rows r)
          rows) ∧
      (s.handlersOf entity ++ registered s entity regs = [] →
        ∀ rows r, (applyAll regs s).dispatch entity rows r = rows) ∧
      (∀ rows r, (applyAll (regs.filter fun reg => reg.entity = entity) s).dispatch entity rows r =
        (applyAll regs s).dispatch entity rows r) ∧
      (∀ schemas, (applyAll regs s).handlersOf entity = schemas.map valueListHandler →
        ∀ rows r result, LastAnswer r rows schemas result ↔
          (applyAll regs s).dispatch entity rows r = result) ∧
      (∀ schema n,
        (applyAll regs s).handlersOf entity = List.replicate (n + 1) (valueListHandler schema) →
        ∀ once : Service, once.handlersOf entity = [valueListHandler schema] →
          ∀ rows r, (applyAll regs s).dispatch entity rows r = once.dispatch entity rows r) := by
  have hruns : ∀ rows r, (applyAll regs s).dispatch entity rows r =
      (s.handlersOf entity ++ registered s entity regs).foldl (fun rows handler => handler rows r)
        rows := by
    intro rows r
    rw [dispatch, handlersOf_applyAll]
  refine ⟨hruns, fun hnone rows r => ?_, fun rows r => ?_, fun schemas h rows r result => ?_,
    fun schema n h once honce rows r => ?_⟩
  · rw [hruns, hnone]
    rfl
  · rw [hruns, dispatch, handlersOf_applyAll, registered_filter]
  · rw [dispatch, h, lastAnswer_iff]
  · rw [dispatch, h, foldl_replicate_valueListHandler, dispatch, honce]
    rfl

/-- A service that exposes the value list "Values". -/
def shop : Service := ofEntities "Shop" .application ["Values"]

/-- The handler of a schema that knows an entity is registered for the value list, between two
services, then a handler for that entity, and then the handler of a schema without definitions. -/
def mixed : List Registration :=
  [.among [shop] [shop] catalog "Values", .single "Books" fun _ _ => [],
    .single "Values" (valueListHandler .empty)]

/-- The handler of one schema is registered in both ways. -/
def twice : List Registration :=
  [.among [] [] catalog "Values", .single "Values" (valueListHandler catalog)]

/-- The first of two schemas gives the last answer, an entity without handlers keeps its rows, and
a handler that is registered twice gives what it gives once. -/
theorem dispatch_applyAll_catalog :
    ((applyAll mixed shop).handlersOf "Values" = [catalog, .empty].map valueListHandler ∧
        ∀ rows, (applyAll mixed shop).dispatch "Values" rows request =
          [⟨.text "PB", "Books", "format"⟩]) ∧
      (shop.handlersOf "Magazines" ++ registered shop "Magazines" mixed = [] ∧
        ∀ rows r, (applyAll mixed shop).dispatch "Magazines" rows r = rows) ∧
      (applyAll twice shop).handlersOf "Values" =
          List.replicate 2 (valueListHandler catalog) ∧
        ∀ rows r, (applyAll twice shop).dispatch "Values" rows r =
          (shop.afterRead "Values" (valueListHandler catalog)).dispatch "Values" rows r := by
  have hmixed := dispatch_applyAll shop mixed
  have htwice := dispatch_applyAll shop twice "Values"
  refine ⟨⟨rfl, fun rows => ?_⟩, ⟨rfl, (hmixed "Magazines").2.1 rfl⟩, rfl,
    htwice.2.2.2.2 catalog 1 rfl _ rfl⟩
  have hlast : LastAnswer request rows ([] ++ catalog :: [.empty])
      [⟨.text "PB", "Books", "format"⟩] := .answered rfl (List.forall_mem_singleton.2 rfl)
  exact ((hmixed "Values").2.2.2.1 [catalog, .empty] rfl rows request _).1 hlast

end Service

end Picklist
