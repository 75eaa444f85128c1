/-
# Equal schemas

Equality compares a schema part by part, and the JSON values that are kept as they are by
`Json.same`.  So equal schemas are written as the same document, up to what an outline shows: the
order of the members of these values, and the signs of their zeros.

* `Valid`, for each part : no JSON value that it keeps repeats a name, and `Stable.valid` : so it
  is with whatever was read;
* `settled_of_beq`, for each part : what is written of equal parts is settled;
* `beq_self`, for each part : what is valid equals itself;
* `Schema.settled_of_beq` : equal schemas whose documents have the same outline are written as
  the same document.
-/
import Picklist.Proofs.Enumeration.Survival
import Picklist.Proofs.Json.Outline
import Picklist.Proofs.Schema.ReadBack

namespace Picklist

open Json

/-! ## Members of equal parts -/

section Members

variable {κ α : Type} {P : α → Prop} {write : α → Json}

/-- What is written of equal entries is settled, if that is so for their values. -/
theorem settledMembers_of_beq [BEq κ] [LawfulBEq κ] [BEq α] (text : κ → String)
    (hwrite : ∀ a b, P a → P b → (a == b) = true → (write a).Settled (write b))
    {es fs : List (κ × α)} (h : (es == fs) = true) (he : ∀ e ∈ es, P e.2)
    (hf : ∀ f ∈ fs, P f.2) :
    SettledMembers (es.map fun e => (text e.1, write e.2))
      (fs.map fun f => (text f.1, write f.2)) := by
  induction es generalizing fs with
  | nil =>
      cases fs with
      | nil => exact .nil
      | cons f rest => cases h
  | cons e es ih =>
      cases fs with
      | nil => cases h
      | cons f fs =>
          rw [List.forall_mem_cons] at he hf
          rw [List.cons_beq_cons, Bool.and_eq_true] at h
          have hpair : (e.1 == f.1 && e.2 == f.2) = true := h.1
          rw [Bool.and_eq_true, beq_iff_eq] at hpair
          exact .cons ⟨congrArg text hpair.1, hwrite _ _ he.1 hf.1 hpair.2⟩ (ih h.2 he.2 hf.2)

/-- What is written of equal values that may be left out is settled. -/
theorem settledMembers_optionalMember [BEq α] (name : String)
    (hwrite : ∀ a b, P a → P b → (a == b) = true → (write a).Settled (write b))
    {a b : Option α} (h : (a == b) = true) (ha : ∀ v, a = some v → P v)
    (hb : ∀ v, b = some v → P v) :
    SettledMembers (optionalMember name write a) (optionalMember name write b) := by
  cases a with
  | none =>
      cases b with
      | none => exact .nil
      | some b => cases h
  | some a =>
      cases b with
      | none => cases h
      | some b => exact .cons ⟨rfl, hwrite a b (ha a rfl) (hb b rfl) h⟩ .nil

/-- Entries equal themselves if their values do. -/
theorem entries_beq_self [BEq κ] [LawfulBEq κ] [BEq α] {es : List (κ × α)}
    (h : ∀ e ∈ es, (e.2 == e.2) = true) : (es == es) = true := by
  induction es with
  | nil => rfl
  | cons e es ih =>
      rw [List.forall_mem_cons] at h
      have hpair : (e == e) = true := by
        change (e.1 == e.1 && e.2 == e.2) = true
        rw [beq_self_eq_true, h.1]
        rfl
      rw [List.cons_beq_cons, hpair, ih h.2]
      rfl

theorem optional_beq_self [BEq α] {a : Option α} (h : ∀ v, a = some v → (v == v) = true) :
    (a == a) = true := by
  cases a with
  | none => rfl
  | some v => exact h v rfl

theorem settledMembers_singleton (name : String) {v w : Json} (h : v.Settled w) :
    SettledMembers [(name, v)] [(name, w)] :=
  .cons ⟨rfl, h⟩ .nil

theorem Json.SettledMembers.append {ms ns ms' ns' : Members Json} (h : SettledMembers ms ns)
    (h' : SettledMembers ms' ns') : SettledMembers (ms ++ ms') (ns ++ ns') :=
  List.rel_append h h'

/-- A member that is left out in the same case. -/
theorem Json.SettledMembers.unless {ms ns : Members Json} {p q : Bool} (hpq : p = q)
    (h : SettledMembers ms ns) :
    SettledMembers (if p = true then [] else ms) (if q = true then [] else ns) := by
  subst hpq
  split
  · exact .nil
  · exact h

end Members

namespace Dict

variable {κ α : Type} [Ord κ] [BEq κ] [LawfulBEq κ] [BEq α] {P : α → Prop} {write : α → Json}
  {a b : Dict κ α}

/-- What is written of equal dictionaries is settled, if that is so for their values. -/
theorem settledMembers_of_beq [Std.LawfulEqOrd κ] (text : κ → String)
    (hwrite : ∀ v w, P v → P w → (v == w) = true → (write v).Settled (write w))
    (h : (a == b) = true) (ha : ∀ key v, a.get? key = some v → P v)
    (hb : ∀ key v, b.get? key = some v → P v) :
    SettledMembers (a.entries.map fun e => (text e.1, write e.2))
      (b.entries.map fun e => (text e.1, write e.2)) :=
  Picklist.settledMembers_of_beq text hwrite h (fun e he => ha e.1 e.2 (get?_eq_some_iff.2 he))
    fun e he => hb e.1 e.2 (get?_eq_some_iff.2 he)

theorem beq_self [Std.TransOrd κ] [Std.LawfulEqOrd κ]
    (h : ∀ key v, a.get? key = some v → (v == v) = true) : (a == a) = true :=
  beq_of_get? rfl fun key v hv => ⟨v, hv, h key v hv⟩

omit [LawfulBEq κ] in
theorem isEmpty_eq_of_beq (h : (a == b) = true) : a.isEmpty = b.isEmpty := by
  change (a.entries == b.entries) = true at h
  unfold isEmpty
  cases ha : a.entries <;> cases hb : b.entries <;> simp_all

/-- Equal bags of values that repeat no name are settled. -/
theorem settledMembers_bag {a b : Dict String Json} (h : (a == b) = true) (ha : a.Free [])
    (hb : b.Free []) : SettledMembers a.entries b.entries := by
  have hmap : SettledMembers (a.entries.map fun e => (id e.1, id e.2))
      (b.entries.map fun e => (id e.1, id e.2)) :=
    settledMembers_of_beq id settled_of_same h (fun key v hv => (ha key v hv).1)
      fun key v hv => (hb key v hv).1
  simpa using hmap

theorem Free.beq_self {reserved : List String} {d : Dict String Json} (h : d.Free reserved) :
    (d == d) = true :=
  Dict.beq_self fun key v hv => same_self (h key v hv).1

theorem Free.of_nil {reserved : List String} {d : Dict String Json} (h : d.Free reserved) :
    d.Free [] :=
  fun name v hget => ⟨(h name v hget).1, List.not_mem_nil⟩

end Dict

/-! ## Types and scalars -/

/-- A type reference keeps a value that repeats no name, or a name. -/
def TypeRef.Valid (t : TypeRef) : Prop := t.toJson.Distinct

theorem TypeRef.settled_of_beq (t u : TypeRef) (ht : t.Valid) (hu : u.Valid)
    (h : (t == u) = true) : t.toJson.Settled u.toJson := by
  cases t with
  | named n =>
      cases u with
      | named m =>
          obtain rfl : n = m := eq_of_beq h
          exact settled_refl _
      | other k => cases h
  | other j =>
      cases u with
      | named m => cases h
      | other k => exact settled_of_same j k ht hu h

theorem TypeRef.beq_self {t : TypeRef} (h : t.Valid) : (t == t) = true := by
  cases t with
  | named n => exact beq_self_eq_true n
  | other j => exact same_self h

/-- What is written of equal scalars is settled. -/
theorem Scalar.settled_of_same (v w : Scalar) (h : v.same w = true) :
    v.toJson.Settled w.toJson := by
  refine Json.settled_of_same _ _ v.distinct_toJson w.distinct_toJson ?_
  cases v <;> cases w <;> exact h

/-! ## Enumerations -/

namespace Enumeration

/-- What is written of equal entries is settled. -/
theorem Entry.settled_of_beq (e f : Entry) (he : e.Valid) (hf : f.Valid)
    (h : (e == f) = true) : e.toJson.Settled f.toJson := by
  cases e with
  | bare j =>
      cases f with
      | bare k => exact settled_of_same j k he hf h
      | described w ns => cases h
  | described v ms =>
      cases f with
      | bare k => cases h
      | described w ns =>
          obtain ⟨hvalue, hothers⟩ := Bool.and_eq_true_iff.1 h
          have hmembers : sameMembers ms ns = true := by
            change (ms.length == ns.length && sameMembers ms ns) = true at hothers
            exact (Bool.and_eq_true_iff.1 hothers).2
          cases v with
          | none =>
              cases w with
              | none => exact settled_of_same (.obj ms) (.obj ns) he hf hothers
              | some w => cases hvalue
          | some v =>
              cases w with
              | none => cases hvalue
              | some w =>
                  -- the explicit values stand under one name, and all others as they did
                  refine settled_obj_of_lookup (Members.nodup_put he.1 _ _) fun name x y hx hy => ?_
                  by_cases hname : name = "val"
                  · rw [hname, Members.lookup_put_self, Option.some.injEq] at hx hy
                    exact hx ▸ hy ▸ Scalar.settled_of_same v w hvalue
                  · rw [Members.lookup_put_of_ne _ _ hname] at hx hy
                    exact settled_of_sameMembers ms ns he.2 hf.2 hmembers name x y
                      (mem_of_lookup hx) hy

/-- No entry keeps a value that repeats a name. -/
def Valid (e : Enumeration) : Prop := ∀ m ∈ e.entries, m.2.Valid

/-- What is written of equal enumerations is settled. -/
theorem settled_of_beq (e f : Enumeration) (he : e.Valid) (hf : f.Valid)
    (h : (e == f) = true) : e.toJson.Settled f.toJson :=
  settled_obj (settledMembers_of_beq id Entry.settled_of_beq h he hf)

theorem beq_self {e : Enumeration} (h : e.Valid) : (e == e) = true := by
  change (e.entries == e.entries) = true
  exact entries_beq_self fun m hm => Entry.beq_self (h m hm)

theorem Stable.valid {e : Enumeration} (h : e.Stable) : e.Valid := fun m hm => by
  have hentry := h.entries m hm
  exact hentry.ofJson_toJson ▸ Entry.valid_ofJson hentry.distinct

end Enumeration

/-! ## Queries -/

/-- No other member of a set query repeats a name. -/
def SetQuery.Valid (q : SetQuery) : Prop := q.extra.Free []

theorem SetQuery.settled_of_beq (q p : SetQuery) (hq : q.Valid) (hp : p.Valid)
    (h : (q == p) = true) : q.toJson.Settled p.toJson := by
  change (q.op? == p.op? && q.extra == p.extra) = true at h
  rw [Bool.and_eq_true] at h
  have hop : q.op? = p.op? := eq_of_beq h.1
  rw [toJson_eq, toJson_eq, hop]
  refine settled_obj (SettledMembers.append ?_ (Dict.settledMembers_bag h.2 hq hp))
  exact List.forall₂_same.2 fun m _ => ⟨rfl, settled_refl _⟩

theorem SetQuery.beq_self {q : SetQuery} (h : q.Valid) : (q == q) = true := by
  change (q.op? == q.op? && q.extra == q.extra) = true
  rw [beq_self_eq_true, Dict.Free.beq_self h]
  rfl

/-- Neither the set query nor another member of a query repeats a name. -/
structure Query.Valid (q : Query) : Prop where
  set : ∀ s, q.set? = some s → s.Valid
  extra : q.extra.Free []

theorem Query.settled_of_beq (q p : Query) (hq : q.Valid) (hp : p.Valid)
    (h : (q == p) = true) : q.toJson.Settled p.toJson := by
  change (q.set? == p.set? && q.extra == p.extra) = true at h
  rw [Bool.and_eq_true] at h
  rw [toJson_eq, toJson_eq]
  have hset := settledMembers_optionalMember "SET" SetQuery.settled_of_beq h.1 hq.set hp.set
  exact settled_obj (hset.append (Dict.settledMembers_bag h.2 hq.extra hp.extra))

theorem Query.beq_self {q : Query} (h : q.Valid) : (q == q) = true := by
  change (q.set? == q.set? && q.extra == q.extra) = true
  rw [optional_beq_self fun v hv => SetQuery.beq_self (h.set v hv), h.extra.beq_self]
  rfl

theorem Query.Stable.valid {q : Query} (h : q.Stable) : q.Valid where
  set s hs := (h.set s hs).extra.of_nil
  extra := h.extra.of_nil

/-! ## Annotations -/

/-- No other member of a descriptor repeats a name. -/
def ValueList.Valid (l : ValueList) : Prop := l.extra.Free []

/-- A value-list descriptor is merged member by member. -/
theorem ValueList.merged_toJson {l : ValueList} (h : l.Valid) :
    l.toJson.merged = .obj (Members.merge ([("CollectionPath", .str l.path)] ++
      [("Parameters", (Json.arr (l.parameters.map Parameter.toJson)).merged)] ++
      l.extra.entries)) := by
  have hextra : mergedMembers l.extra.entries = l.extra.entries :=
    mergedMembers_of_distinct _ <| distinctMembers_iff.2 fun m hm =>
      (h m.1 m.2 (Dict.get?_eq_some_iff.2 hm)).1
  simp only [toJson, merged, mergedMembers, hextra, List.cons_append, List.nil_append]

theorem ValueList.settled_of_beq (l k : ValueList) (hl : l.Valid) (hk : k.Valid)
    (h : (l == k) = true) : l.toJson.merged.Settled k.toJson.merged := by
  change (l.path == k.path && (l.parameters == k.parameters && l.extra == k.extra)) = true at h
  rw [Bool.and_eq_true, Bool.and_eq_true] at h
  have hpath : l.path = k.path := eq_of_beq h.1
  have hparameters : l.parameters = k.parameters := eq_of_beq h.2.1
  rw [merged_toJson hl, merged_toJson hk, hpath, hparameters]
  have hbag := Dict.settledMembers_bag h.2.2 hl hk
  refine settled_obj (Members.forall₂_merge (SettledMembers.append ?_ hbag))
  exact List.forall₂_same.2 fun m _ => ⟨rfl, settled_refl _⟩

theorem ValueList.beq_self {l : ValueList} (h : l.Valid) : (l == l) = true := by
  change (l.path == l.path && (l.parameters == l.parameters && l.extra == l.extra)) = true
  rw [beq_self_eq_true, beq_self_eq_true, Dict.Free.beq_self h]
  rfl

namespace Annotation

/-- No value that an annotation keeps repeats a name. -/
def Valid : Annotation → Prop
  | .list l => l.Valid
  | .raw j => j.Distinct
  | _ => True

/-- What is written of equal annotations is settled. -/
theorem settled_of_beq (a b : Annotation) (ha : a.Valid) (hb : b.Valid)
    (h : (a == b) = true) : a.toJson.Settled b.toJson := by
  cases a with
  | flag v =>
      cases b with
      | flag w =>
          obtain rfl : v = w := eq_of_beq h
          exact settled_refl _
      | _ => cases h
  | text t =>
      cases b with
      | text u =>
          obtain rfl : t = u := eq_of_beq h
          exact settled_refl _
      | _ => cases h
  | list l =>
      cases b with
      | list k => exact ValueList.settled_of_beq l k ha hb h
      | _ => cases h
  | raw j =>
      cases b with
      | raw k => exact settled_of_same j k ha hb h
      | _ => cases h

theorem beq_self {a : Annotation} (h : a.Valid) : (a == a) = true := by
  cases a with
  | flag v => exact beq_self_eq_true v
  | text t => exact beq_self_eq_true t
  | list l => exact ValueList.beq_self h
  | raw j => exact same_self h

/-- A stable annotation is valid. -/
theorem Stable.valid {key : AnnotationKey} {a : Annotation} (h : a.Stable key) : a.Valid := by
  cases a with
  | flag v => trivial
  | text t => trivial
  | raw j => exact h.distinct
  | list l =>
      -- a descriptor is taken in by the shape of what is written of it
      have hback := h.ofJson_toJson
      unfold ofJson at hback
      split at hback
      · split at hback
        · rename_i hl
          cases hback
          have hfree := free_of_list? hl
          exact hfree.of_nil
        · cases hback
      · rename_i j _ _
        cases hj : toJson (.list l) <;> rw [hj] at hback <;> cases hback

end Annotation

/-- No value that annotations keep repeats a name. -/
structure Annotations.Valid (a : Annotations) : Prop where
  known : ∀ key v, a.get? key = some v → v.Valid
  extra : a.extra.Free []

/-- The members of equal annotations are settled. -/
theorem Annotations.settledMembers_of_beq {a b : Annotations} (ha : a.Valid) (hb : b.Valid)
    (h : (a == b) = true) : SettledMembers a.members b.members := by
  change (a.known == b.known && a.extra == b.extra) = true at h
  rw [Bool.and_eq_true] at h
  have hknown := Dict.settledMembers_of_beq AnnotationKey.text Annotation.settled_of_beq h.1
    ha.known hb.known
  exact hknown.append (Dict.settledMembers_bag h.2 ha.extra hb.extra)

theorem Annotations.beq_self {a : Annotations} (h : a.Valid) : (a == a) = true := by
  change (a.known == a.known && a.extra == a.extra) = true
  rw [Dict.beq_self fun key v hv => Annotation.beq_self (h.known key v hv), h.extra.beq_self]
  rfl

theorem Annotations.Stable.valid {reserved : List String} {a : Annotations}
    (h : a.Stable reserved) : a.Valid where
  known key v hget := (h.known key v hget).valid
  extra := h.extra.of_nil

/-! ## Elements -/

/-- No value that an element keeps repeats a name. -/
structure Element.Valid (e : Element) : Prop where
  type : ∀ t, e.type? = some t → t.Valid
  enum : ∀ enum, e.enum? = some enum → enum.Valid
  annotations : e.annotations.Valid

/-- What is written of equal elements is settled. -/
theorem Element.settled_of_beq (e f : Element) (he : e.Valid) (hf : f.Valid)
    (h : (e == f) = true) : e.toJson.Settled f.toJson := by
  change (e.key == f.key && (e.type? == f.type? &&
    (e.enum? == f.enum? && e.annotations == f.annotations))) = true at h
  rw [Bool.and_eq_true, Bool.and_eq_true, Bool.and_eq_true] at h
  obtain ⟨hkey, htype, henum, hannotations⟩ := h
  have hkey : SettledMembers (if e.key = true then [("key", .bool true)] else [])
      (if f.key = true then [("key", .bool true)] else []) := by
    rw [eq_of_beq hkey]
    exact List.forall₂_same.2 fun m _ => ⟨rfl, settled_refl _⟩
  have htype := settledMembers_optionalMember "type" TypeRef.settled_of_beq htype he.type hf.type
  have henum := settledMembers_optionalMember "enum" Enumeration.settled_of_beq henum he.enum
    hf.enum
  have hannotations := Annotations.settledMembers_of_beq he.annotations hf.annotations
    hannotations
  exact settled_obj (((hkey.append htype).append henum).append hannotations)

theorem Element.beq_self {e : Element} (h : e.Valid) : (e == e) = true := by
  change (e.key == e.key && (e.type? == e.type? &&
    (e.enum? == e.enum? && e.annotations == e.annotations))) = true
  rw [beq_self_eq_true, optional_beq_self fun t ht => TypeRef.beq_self (h.type t ht),
    optional_beq_self fun enum he => Enumeration.beq_self (h.enum enum he),
    Annotations.beq_self h.annotations]
  rfl

theorem Element.Stable.valid {e : Element} (h : e.Stable) : e.Valid where
  type t ht := (h.type t ht).distinct
  enum enum he := (h.enum enum he).valid
  annotations := h.annotations.valid

/-! ## Definitions -/

/-- No value that a definition keeps repeats a name. -/
structure Definition.Valid (d : Definition) : Prop where
  type : ∀ t, d.type? = some t → t.Valid
  enum : ∀ enum, d.enum? = some enum → enum.Valid
  query : ∀ q, d.query? = some q → q.Valid
  elements : ∀ name e, d.elements.get? name = some e → e.Valid
  annotations : d.annotations.Valid

/-- What is written of equal definitions is settled. -/
theorem Definition.settled_of_beq (d f : Definition) (hd : d.Valid) (hf : f.Valid)
    (h : (d == f) = true) : d.toJson.Settled f.toJson := by
  change (d.kind == f.kind && (d.doc? == f.doc? && (d.type? == f.type? && (d.enum? == f.enum? &&
    (d.query? == f.query? && (d.elements == f.elements &&
      d.annotations == f.annotations)))))) = true at h
  simp only [Bool.and_eq_true] at h
  obtain ⟨hkind, hdoc, htype, henum, hquery, helements, hannotations⟩ := h
  have hword : SettledMembers ([("kind", .str d.kind.text)] ++
      optionalMember "doc" Json.str d.doc?)
      ([("kind", .str f.kind.text)] ++ optionalMember "doc" Json.str f.doc?) := by
    rw [eq_of_beq hkind, eq_of_beq hdoc]
    exact List.forall₂_same.2 fun m _ => ⟨rfl, settled_refl _⟩
  have htype := settledMembers_optionalMember "type" TypeRef.settled_of_beq htype hd.type hf.type
  have henum := settledMembers_optionalMember "enum" Enumeration.settled_of_beq henum hd.enum
    hf.enum
  have hquery := settledMembers_optionalMember "query" Query.settled_of_beq hquery hd.query
    hf.query
  have hwritten := Dict.settledMembers_of_beq id Element.settled_of_beq helements hd.elements
    hf.elements
  have helements := SettledMembers.unless (Dict.isEmpty_eq_of_beq helements)
    (settledMembers_singleton "elements" (settled_obj hwritten))
  have hannotations := Annotations.settledMembers_of_beq hd.annotations hf.annotations
    hannotations
  rw [toJson_eq, toJson_eq]
  exact settled_obj
    (((((hword.append htype).append henum).append hquery).append helements).append hannotations)

theorem Definition.beq_self {d : Definition} (h : d.Valid) : (d == d) = true := by
  change (d.kind == d.kind && (d.doc? == d.doc? && (d.type? == d.type? && (d.enum? == d.enum? &&
    (d.query? == d.query? && (d.elements == d.elements &&
      d.annotations == d.annotations)))))) = true
  rw [beq_self_eq_true, beq_self_eq_true,
    optional_beq_self fun t ht => TypeRef.beq_self (h.type t ht),
    optional_beq_self fun enum he => Enumeration.beq_self (h.enum enum he),
    optional_beq_self fun q hq => Query.beq_self (h.query q hq),
    Dict.beq_self fun name e he => Element.beq_self (h.elements name e he),
    Annotations.beq_self h.annotations]
  rfl

theorem Definition.Stable.valid {d : Definition} (h : d.Stable) : d.Valid where
  type t ht := (h.type t ht).distinct
  enum enum he := (h.enum enum he).valid
  query q hq := (h.query q hq).valid
  elements name e he := (h.elements name e he).valid
  annotations := h.annotations.valid

/-! ## Schemas -/

namespace Schema

/-- No value that a schema keeps repeats a name. -/
structure Valid (s : Schema) : Prop where
  definitions : ∀ name d, s.get? name = some d → d.Valid
  metadata : s.metadata.Free []
  extra : s.extra.Free []

/-- **Equal schemas are written as the same document**, if their documents have the same
outline. -/
theorem settled_of_beq (s t : Schema) (hs : s.Valid) (ht : t.Valid) (h : (s == t) = true) :
    s.toJson.Settled t.toJson := by
  change (s.definitions == t.definitions && (s.metadata == t.metadata &&
    s.extra == t.extra)) = true at h
  rw [Bool.and_eq_true, Bool.and_eq_true] at h
  obtain ⟨hdefinitions, hmetadata, hextra⟩ := h
  have hwritten := Dict.settledMembers_of_beq id Definition.settled_of_beq hdefinitions
    hs.definitions ht.definitions
  have hmeta := SettledMembers.unless (Dict.isEmpty_eq_of_beq hmetadata)
    (settledMembers_singleton "meta"
      (settled_obj (Dict.settledMembers_bag hmetadata hs.metadata ht.metadata)))
  have hbag := Dict.settledMembers_bag hextra hs.extra ht.extra
  exact settled_obj
    (((settledMembers_singleton "definitions" (settled_obj hwritten)).append hmeta).append hbag)

/-- **A schema equals itself**, if no value that it keeps repeats a name. -/
theorem beq_self {s : Schema} (h : s.Valid) : (s == s) = true := by
  change (s.definitions == s.definitions && (s.metadata == s.metadata &&
    s.extra == s.extra)) = true
  rw [Dict.beq_self fun name d hd => Definition.beq_self (h.definitions name d hd),
    h.metadata.beq_self, h.extra.beq_self]
  rfl

theorem Stable.valid {s : Schema} (h : s.Stable) : s.Valid where
  definitions name d hget := (h.definitions name d hget).valid
  metadata := h.metadata
  extra := h.extra.of_nil

end Schema

end Picklist
