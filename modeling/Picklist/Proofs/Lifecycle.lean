/-
# A plugin at its host

A host owns schemas and services.  It tells its plugin when a schema is loaded and when services
are served, and in between others bring the objects into any states.  The plugin remembers one
thing, whether it has been told of services, and that is enough: however often it is told, no
service gets more than one handler.

* `Host.step` and `Host.run` : what an event and a sequence of events make of a host;
* `Host.served_run` : what the plugin remembers;
* `Host.step_served_again` and `Host.services_served_first` : what it does when it is told of
  services, with that memory and without;
* `Host.attached_once` : what holds of every call in a sequence, and of the whole sequence.
-/
import Picklist.Plugin
import Picklist.Proofs.Service

namespace Picklist

/-! ## Getting a handler -/

namespace Service

/-- A service is to get the handler of a value list when it is an application service that
exposes the list. -/
def Wants (list : String) (s : Service) : Prop := s.kind = .application ∧ s.exposes list = true

instance (list : String) (s : Service) : Decidable (s.Wants list) :=
  inferInstanceAs (Decidable (_ ∧ _))

/-- A service gets one more handler for an entity, which runs last, and is otherwise the same. -/
structure Gets (entity : String) (handler : ReadHandler) (s s' : Service) : Prop where
  name : s'.name = s.name
  kind : s'.kind = s.kind
  entities : s'.entities = s.entities
  handlers : s'.handlersOf entity = s.handlersOf entity ++ [handler]
  others : ∀ other, other ≠ entity → s'.handlersOf other = s.handlersOf other

theorem wantsHandler_iff {list : String} {s : Service} :
    s.wantsHandler list = true ↔ s.Wants list := by
  rw [wantsHandler, Bool.and_eq_true, decide_eq_true_eq, Wants]

/-- Adding a handler does nothing else. -/
theorem gets_afterRead (s : Service) (entity : String) (handler : ReadHandler) :
    Gets entity handler s (s.afterRead entity handler) where
  name := rfl
  kind := rfl
  entities := rfl
  handlers := by rw [handlersOf_afterRead, if_pos rfl]
  others other h := by rw [handlersOf_afterRead, if_neg h]

end Service

namespace Plugin

variable {p : Plugin} (s : Schema) (services : List Service)

/-- A plugin that has been told of services does nothing when it is told again. -/
theorem onServed_again (h : p.served = true) : p.onServed s services = (p, services, []) := by
  rw [onServed, if_pos h]

/-- A plugin that is told of services for the first time registers its handler. -/
theorem onServed_first (h : p.served = false) :
    p.onServed s services =
      ({ p with served := true }, Service.register s p.valueList services) := by
  rw [onServed, h]
  rfl

end Plugin

/-! ## Hosts and events -/

/-- A plugin, and the schemas and services of its host by their numbers, each in the state that it
is in. -/
structure Host where
  plugin : Plugin
  schemas : Nat → Schema
  services : Nat → Service

namespace Host

/-- What happens at a host. -/
inductive Event where
  /-- The plugin is told that a schema is loaded. -/
  | loaded (schema : Nat)
  /-- The plugin is told that services are served, and gets a schema for them. -/
  | served (schema : Nat) (services : List Nat)
  /-- Others bring schemas and services into any states. -/
  | others (schemas : Nat → Schema) (services : Nat → Service)

/-- Whether an event is a call of the plugin. -/
def Event.isCall : Event → Bool
  | .others _ _ => false
  | _ => true

/-- All services when some of them were brought into new states. -/
def write (numbers : List Nat) (states : List Service) (services : Nat → Service) :
    Nat → Service :=
  fun i => ((numbers.zip states).lookup i).getD (services i)

/-- A host after an event. -/
def step (h : Host) : Event → Host
  | .loaded schema =>
    { h with
      schemas := fun i =>
        if i = schema then (h.plugin.onLoaded (h.schemas i)).1 else h.schemas i }
  | .served schema services =>
    let (plugin, states, _) := h.plugin.onServed (h.schemas schema) (services.map h.services)
    { h with plugin := plugin, services := write services states h.services }
  | .others schemas services => { h with schemas := schemas, services := services }

/-- The names that the plugin returns when it is told of services. -/
def registered (h : Host) (schema : Nat) (services : List Nat) : List String :=
  (h.plugin.onServed (h.schemas schema) (services.map h.services)).2.2

/-- A host after a sequence of events. -/
def run (h : Host) (events : List Event) : Host := events.foldl step h

/-- The plugin is told of services in the course of some events. -/
def Told (events : List Event) : Prop := ∃ schema services, .served schema services ∈ events

/-- The handlers that a service gets for an entity when an event is a call of the plugin. -/
def added (i : Nat) (entity : String) (h : Host) (e : Event) : List ReadHandler :=
  if e.isCall then
    (((h.step e).services i).handlersOf entity).drop ((h.services i).handlersOf entity).length
  else []

/-- The handlers that a service gets for an entity from the plugin, all along some events. -/
def gained (i : Nat) (entity : String) : Host → List Event → List ReadHandler
  | _, [] => []
  | h, e :: rest => added i entity h e ++ gained i entity (h.step e) rest

/-- An event keeps the handlers of every service in their order, and at most adds some behind
them. -/
def Keeps (h : Host) (e : Event) : Prop :=
  ∀ i entity, (h.services i).handlersOf entity <+: ((h.step e).services i).handlersOf entity

/-- Whatever others do in the course of some events keeps the handlers of every service. -/
def OthersKeep : Host → List Event → Prop
  | _, [] => True
  | h, e :: rest => (e.isCall = false → h.Keeps e) ∧ OthersKeep (h.step e) rest

/-! ## What the plugin remembers -/

section Run

variable {h : Host} {events : List Event}

/-- No event changes the settings of the plugin. -/
theorem settings_step (h : Host) (e : Event) :
    (h.step e).plugin.settings = h.plugin.settings := by
  cases e with
  | served schema services =>
      cases hserved : h.plugin.served with
      | true => simp only [step, Plugin.onServed_again _ _ hserved]
      | false => simp only [step, Plugin.onServed_first _ _ hserved]
  | _ => rfl

/-- The plugin remembers being told of services. -/
theorem served_step (h : Host) (e : Event) :
    (h.step e).plugin.served = true ↔ h.plugin.served = true ∨ Told [e] := by
  cases e with
  | served schema services =>
      have htold : Told [.served schema services] := ⟨schema, services, List.mem_singleton.2 rfl⟩
      refine iff_of_true ?_ (.inr htold)
      cases hserved : h.plugin.served with
      | true => simp only [step, Plugin.onServed_again _ _ hserved, hserved]
      | false => simp only [step, Plugin.onServed_first _ _ hserved]
  | loaded schema => simp [step, Told]
  | others schemas services => simp [step, Told]

/-- The plugin is told in the course of some events when it is told by the first one or by a
later one. -/
theorem told_cons {e : Event} : Told (e :: events) ↔ Told [e] ∨ Told events := by
  simp only [Told, List.mem_cons, List.not_mem_nil, or_false, exists_or]

theorem settings_run (h : Host) (events : List Event) :
    (h.run events).plugin.settings = h.plugin.settings := by
  induction events generalizing h with
  | nil => rfl
  | cons e rest ih => exact (ih (h.step e)).trans (settings_step h e)

/-- After a run the plugin remembers being told of services before it or in its course. -/
theorem served_run (h : Host) (events : List Event) :
    (h.run events).plugin.served = true ↔ h.plugin.served = true ∨ Told events := by
  induction events generalizing h with
  | nil => simp [run, Told]
  | cons e rest ih => rw [told_cons, ← or_assoc, ← served_step]; exact ih (h.step e)

/-! ## What a call does -/

/-- Services that were brought into the states that a function gives them. -/
theorem write_map (f : Nat → Service) (numbers : List Nat) (services : Nat → Service) (i : Nat) :
    write numbers (numbers.map f) services i = if i ∈ numbers then f i else services i := by
  have hlookup : (numbers.zip (numbers.map f)).lookup i =
      if i ∈ numbers then some (f i) else none := by
    induction numbers with
    | nil => rfl
    | cons n rest ih =>
        rw [List.map_cons, List.zip_cons_cons, List.lookup_cons, ih]
        by_cases hn : i = n
        · simp [hn]
        · have hne : (i == n) = false := beq_eq_false_iff_ne.2 hn
          simp [hne, hn]
  rw [write, hlookup]
  split <;> rfl

/-- Telling the plugin of services once more changes nothing. -/
theorem step_served_again (hserved : h.plugin.served = true) (schema : Nat)
    (services : List Nat) :
    h.step (.served schema services) = h ∧ h.registered schema services = [] := by
  constructor
  · have hsame : write services (services.map h.services) h.services = h.services := by
      funext i
      rw [write_map, ite_self]
    simp only [step, Plugin.onServed_again _ _ hserved, hsame]
  · rw [registered, Plugin.onServed_again _ _ hserved]

/-- Telling the plugin of services for the first time adds the handler to those that want it. -/
theorem services_served_first (hserved : h.plugin.served = false) (schema : Nat)
    (services : List Nat) (i : Nat) :
    (h.step (.served schema services)).services i =
      if i ∈ services ∧ (h.services i).Wants h.plugin.valueList then
        (h.services i).afterRead h.plugin.valueList (Service.valueListHandler (h.schemas schema))
      else h.services i := by
  simp only [step, Plugin.onServed_first _ _ hserved, Service.register, List.map_map, write_map,
    Function.comp_apply, Service.wantsHandler_iff]
  by_cases hi : i ∈ services <;> simp [hi]

/-- The first time, the plugin returns the names of the services that want the handler. -/
theorem registered_first (hserved : h.plugin.served = false) (schema : Nat)
    (services : List Nat) :
    h.registered schema services =
      (services.filter fun i => (h.services i).Wants h.plugin.valueList).map
        fun i => (h.services i).name := by
  have hwants : ∀ i, (h.services i).wantsHandler h.plugin.valueList =
      decide ((h.services i).Wants h.plugin.valueList) := by
    intro i
    rw [← Bool.coe_iff_coe, Service.wantsHandler_iff, decide_eq_true_eq]
  rw [registered, Plugin.onServed_first _ _ hserved, Service.register, List.filter_map,
    List.map_map]
  simp only [Function.comp_def, hwants, List.map_map]

/-! ## What calls add -/

/-- A call of the plugin keeps the handlers of every service. -/
theorem keeps_of_isCall (h : Host) {e : Event} (he : e.isCall = true) : h.Keeps e := by
  intro i entity
  cases e with
  | loaded schema => exact List.prefix_rfl
  | served schema services =>
      cases hserved : h.plugin.served with
      | true =>
          have hsame := (step_served_again hserved schema services).1
          simp only [hsame, List.prefix_rfl]
      | false =>
          rw [services_served_first hserved]
          split
          · exact Service.handlersOf_prefix_afterRead _ _ entity _
          · exact List.prefix_rfl
  | others schemas services => cases he

/-- While others keep the handlers of every service, all events together do. -/
theorem handlersOf_prefix_run (hothers : OthersKeep h events) (i : Nat) (entity : String) :
    (h.services i).handlersOf entity <+: ((h.run events).services i).handlersOf entity := by
  induction events generalizing h with
  | nil => exact List.prefix_rfl
  | cons e rest ih =>
      obtain ⟨hkeeps, hrest⟩ := hothers
      have hfirst : h.Keeps e := by
        cases he : e.isCall with
        | true => exact keeps_of_isCall h he
        | false => exact hkeeps he
      exact (hfirst i entity).trans (ih hrest)

/-- A call of the plugin adds its handlers behind those that a service has. -/
theorem append_added (h : Host) {e : Event} (he : e.isCall = true) (i : Nat) (entity : String) :
    (h.services i).handlersOf entity ++ added i entity h e =
      ((h.step e).services i).handlersOf entity := by
  rw [added, if_pos he]
  exact (List.prefix_iff_eq_append.1 (keeps_of_isCall h he i entity))

/-- An event that leaves a service adds nothing to it. -/
theorem added_of_eq {i : Nat} {e : Event} (he : (h.step e).services i = h.services i)
    (entity : String) : added i entity h e = [] := by
  rw [added, he, List.drop_length, ite_self]

/-- A plugin that has been told of services adds nothing. -/
theorem added_again (hserved : h.plugin.served = true) (i : Nat) (entity : String) (e : Event) :
    added i entity h e = [] := by
  cases e with
  | loaded schema => exact added_of_eq rfl entity
  | served schema services =>
      exact added_of_eq (by rw [(step_served_again hserved schema services).1]) entity
  | others schemas services => rfl

/-- The first time the plugin is told of services, it adds at most one handler to each of them,
and none for another entity than the value list. -/
theorem length_added_le (hserved : h.plugin.served = false) (schema : Nat) (services : List Nat)
    (i : Nat) (entity : String) :
    (added i entity h (.served schema services)).length ≤
      if entity = h.plugin.valueList then 1 else 0 := by
  by_cases hgets : i ∈ services ∧ (h.services i).Wants h.plugin.valueList
  · rw [added, services_served_first hserved, if_pos hgets, Service.handlersOf_afterRead]
    by_cases hentity : entity = h.plugin.valueList
    · simp [hentity, Event.isCall]
    · simp [hentity]
  · rw [added_of_eq (by rw [services_served_first hserved, if_neg hgets])]
    exact Nat.zero_le _

/-- A plugin that has been told of services adds nothing any more. -/
theorem gained_again (hserved : h.plugin.served = true) (i : Nat) (entity : String)
    (events : List Event) : gained i entity h events = [] := by
  induction events generalizing h with
  | nil => rfl
  | cons e rest ih =>
      rw [gained, added_again hserved, ih ((served_step h e).2 (.inl hserved)), List.append_nil]

/-- All along some events, a service gets at most one handler from the plugin, and none for
another entity than the value list. -/
theorem length_gained_le (h : Host) (events : List Event) (i : Nat) (entity : String) :
    (gained i entity h events).length ≤ if entity = h.plugin.valueList then 1 else 0 := by
  induction events generalizing h with
  | nil => exact Nat.zero_le _
  | cons e rest ih =>
      have hlist : (h.step e).plugin.valueList = h.plugin.valueList := by
        rw [Plugin.valueList, settings_step]
        rfl
      have hrest := ih (h.step e)
      rw [hlist] at hrest
      cases hserved : h.plugin.served with
      | true => rw [gained_again hserved]; exact Nat.zero_le _
      | false =>
          cases e with
          | loaded schema => rwa [gained, added_of_eq rfl]
          | others schemas services => exact hrest
          | served schema services =>
              -- this is the one call that adds anything
              have htold : Told [.served schema services] := ⟨schema, services, List.mem_cons_self⟩
              rw [gained, gained_again ((served_step h _).2 (.inr htold)), List.append_nil]
              exact length_added_le hserved schema services i entity

end Run

/-! ## The whole life -/

/-- What the first call does that tells a plugin of services: each of them that wants the handler
of the value list gets it, no other service changes, and the names of those that got it are
returned in the order of the call. -/
structure Attaches (list : String) (handler : ReadHandler) (numbers : List Nat)
    (services services' : Nat → Service) (names : List String) : Prop where
  gets : ∀ i ∈ numbers, (services i).Wants list →
    Service.Gets list handler (services i) (services' i)
  leaves : ∀ i, ¬(i ∈ numbers ∧ (services i).Wants list) → services' i = services i
  names : names =
    (numbers.filter fun i => (services i).Wants list).map fun i => (services i).name

/-- Being told of services for the first time, a plugin attaches its handler. -/
theorem attaches_first {h : Host} (hserved : h.plugin.served = false) (schema : Nat)
    (services : List Nat) :
    Attaches h.plugin.valueList (Service.valueListHandler (h.schemas schema)) services h.services
      (h.step (.served schema services)).services (h.registered schema services) where
  gets i hi hwants := by
    rw [services_served_first hserved, if_pos ⟨hi, hwants⟩]
    exact Service.gets_afterRead _ _ _
  leaves i hi := by rw [services_served_first hserved, if_neg hi]
  names := registered_first hserved schema services

/-- **Handlers are attached at most once.**  Take a new plugin at a host with any schemas and
services, and any events.  Loading a schema then changes neither a service nor what the plugin
remembers.  If the plugin has not been told of services yet, the next time it is it attaches its
handler; if it has, it does nothing and returns no name.  Every call leaves the handlers that a
service has and adds its own behind them.  So over all the events no service gets more than one
handler from the plugin, and none for another entity than the value list; and while others keep
the handlers of all services, they are still there in the end, in their order. -/
theorem attached_once (settings : Settings) (schemas : Nat → Schema) (services : Nat → Service)
    (events : List Event) :
    let start : Host := ⟨.ofSettings settings, schemas, services⟩
    let now := start.run events
    (∀ schema, (now.step (.loaded schema)).services = now.services ∧
        (now.step (.loaded schema)).plugin = now.plugin) ∧
      (¬Told events → ∀ schema numbers,
        Attaches settings.entity (Service.valueListHandler (now.schemas schema)) numbers
          now.services (now.step (.served schema numbers)).services
          (now.registered schema numbers)) ∧
      (Told events → ∀ schema numbers,
        (now.step (.served schema numbers)).services = now.services ∧
          now.registered schema numbers = []) ∧
      (∀ event, event.isCall = true → ∀ i entity,
        (now.services i).handlersOf entity ++ added i entity now event =
          ((now.step event).services i).handlersOf entity) ∧
      (∀ i entity,
        (gained i entity start events).length ≤ if entity = settings.entity then 1 else 0) ∧
      (OthersKeep start events → ∀ i entity,
        (services i).handlersOf entity <+: (now.services i).handlersOf entity) := by
  intro start now
  have htold : now.plugin.served = true ↔ Told events := by
    simp only [now, served_run, start, Plugin.ofSettings, Bool.false_eq_true, false_or]
  have hlist : now.plugin.valueList = settings.entity := by
    rw [Plugin.valueList, settings_run]
    rfl
  refine ⟨fun schema => ⟨rfl, rfl⟩, fun hnot schema numbers => ?_, fun h schema numbers => ?_,
    fun event he i entity => append_added now he i entity,
    fun i entity => length_gained_le start events i entity,
    fun hothers i entity => handlersOf_prefix_run hothers i entity⟩
  · have hserved : now.plugin.served = false := by
      rw [← Bool.not_eq_true, htold]
      exact hnot
    rw [← hlist]
    exact attaches_first hserved schema numbers
  · obtain ⟨hstep, hnames⟩ := step_served_again (htold.2 h) schema numbers
    exact ⟨by rw [hstep], hnames⟩

/-- An application service that exposes the value list and has a handler for it. -/
def sales : Service :=
  (Service.ofEntities "Sales" .application ["EnumValueHelpView"]).afterRead "EnumValueHelpView"
    fun rows _ => rows

/-- Between two calls for a service, another handler is attached to it.  Only the first call
returns its name, the service gets one handler from the plugin, and all handlers are kept. -/
theorem attached_once_sales :
    let start : Host := ⟨.ofSettings {}, fun _ => .empty, fun _ => sales⟩
    let early : List Event := [.loaded 0, .served 0 [0]]
    let late : Event := .others (fun _ => .empty) fun i =>
      ((start.run early).services i).afterRead "EnumValueHelpView" fun _ _ => []
    (¬Told [.loaded 0] ∧ (start.run [.loaded 0]).registered 0 [0] = ["Sales"]) ∧
      (Told (early ++ [late]) ∧ (start.run (early ++ [late])).registered 0 [0] = []) ∧
      (OthersKeep start (early ++ [late]) ∧
        sales.handlersOf "EnumValueHelpView" <+:
          ((start.run (early ++ [late])).services 0).handlersOf "EnumValueHelpView") ∧
      (((start.run (early ++ [late])).services 0).handlersOf "EnumValueHelpView").length = 3 := by
  intro start early late
  have hnot : ¬Told [.loaded 0] := by simp [Told]
  have htold : Told (early ++ [late]) := ⟨0, [0], by simp [early]⟩
  have hothers : OthersKeep start (early ++ [late]) :=
    ⟨fun h => (by cases h), fun h => (by cases h),
      fun _ i entity => Service.handlersOf_prefix_afterRead _ _ entity _, trivial⟩
  have hfirst := (attached_once {} (fun _ => .empty) (fun _ => sales) [.loaded 0]).2.1 hnot 0 [0]
  have hall := attached_once {} (fun _ => .empty) (fun _ => sales) (early ++ [late])
  exact ⟨⟨hnot, hfirst.names.trans (by decide)⟩, ⟨htold, (hall.2.2.1 htold 0 [0]).2⟩,
    ⟨hothers, hall.2.2.2.2.2 hothers 0 "EnumValueHelpView"⟩, by decide⟩

end Host

end Picklist
