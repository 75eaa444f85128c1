/-
# Which values are held as descriptors

The value of the key of descriptors is held as a descriptor exactly when it equals what is written
of some descriptor, whatever the order of its members.  Any other value is kept as it is: a reader
would pass over some parts of it, or make parts up, and writing it would not give it back.

* `ValueList.Matches` : what an object holds that a written descriptor equals;
* `Annotation.list?_of_same` : such an object is held as an equal descriptor;
* `ValueList.Unfit` : four ways in which an object is no written descriptor;
* `Annotations.valueList?_given` : which of the given values are held as descriptors.
-/
import Picklist.Proofs.Annotation.Given
import Picklist.Proofs.Annotation.Reorder

namespace Picklist

open Json

namespace ValueList

/-! ## Objects that equal a written descriptor -/

/-- What an object holds that a written descriptor equals: its path, items that equal its
parameters, equal other members, and no further ones. -/
structure Matches (l : ValueList) (ms : Members Json) (items : List Json) : Prop where
  path : ms.lookup "CollectionPath" = some (.str l.path)
  parameters : ms.lookup "Parameters" = some (.arr items)
  shown : Shown l.parameters items
  extra : ∀ name v, l.extra.get? name = some v → ∃ w, ms.lookup name = some w ∧ (v == w) = true
  length : ms.length = l.extra.entries.length + 2

variable {l : ValueList} {ms : Members Json} {items : List Json}

/-- A written descriptor equals only objects with its path, parameters and other members. -/
theorem exists_matches (h : l.extra.Free reserved) {v : Json} (hs : (l.toJson == v) = true) :
    ∃ ms items, v = .obj ms ∧ l.Matches ms items := by
  have hdistinct := (readsBack h).distinct
  cases v with
  | obj ms =>
      have hsame : l.toJson.same (.obj ms) = true := hs
      rw [← merged_of_distinct _ hdistinct] at hsame
      obtain ⟨items, hitems, hshown⟩ := exists_shown hdistinct.1 hsame
      rw [merged_of_distinct _ hdistinct, toJson, same, Bool.and_eq_true, beq_iff_eq,
        sameMembers_iff] at hsame
      obtain ⟨hlength, hmem⟩ := hsame
      obtain ⟨path, hpath, hsame⟩ := hmem _ List.mem_cons_self
      refine ⟨ms, items, rfl, same_str_iff.1 hsame ▸ hpath, hitems, hshown, fun name v hv => ?_,
        hlength.symm⟩
      have hentry := Dict.get?_eq_some_iff.1 hv
      exact hmem (name, v) (List.mem_cons_of_mem _ (List.mem_cons_of_mem _ hentry))
  | _ => cases hs

namespace Matches

/-- Such an object has a path, parameters, and others. -/
theorem exists_rest (hm : l.Matches ms items) (hn : ms.names.Nodup) : ∃ rest : Members Json,
    ms.Perm (("CollectionPath", .str l.path) :: ("Parameters", .arr items) :: rest) := by
  have hpath := Members.perm_withdraw hm.path
  have hparameters : (ms.withdraw "CollectionPath").lookup "Parameters" = some (.arr items) :=
    (lookup_eq_of_perm hpath hn "Parameters").symm.trans hm.parameters
  exact ⟨_, hpath.trans ((Members.perm_withdraw hparameters).cons _)⟩

/-- The others are a free bag that equals the one of the descriptor. -/
theorem exists_extra (hm : l.Matches ms items) (h : l.extra.Free reserved)
    (hv : (Json.obj ms).Distinct) : ∃ extra : Dict String Json,
      ms.Perm (("CollectionPath", .str l.path) :: ("Parameters", .arr items) :: extra.entries) ∧
        extra.Free reserved ∧ (l.extra == extra) = true := by
  obtain ⟨hn, hdistinct⟩ := distinct_obj_iff.1 hv
  obtain ⟨rest, hperm⟩ := hm.exists_rest hn
  have hnames := (hperm.map Prod.fst).nodup_iff.1 hn
  simp only [List.map_cons, List.nodup_cons, List.mem_cons, not_or] at hnames
  obtain ⟨⟨-, hpath⟩, hparameters, hrest⟩ := hnames
  have hentries := Dict.perm_ofList hrest
  refine ⟨Dict.ofList rest, hperm.trans ((hentries.symm.cons _).cons _), ?_, ?_⟩
  · intro name v hget
    have hmem : (name, v) ∈ rest := hentries.mem_iff.1 (Dict.get?_eq_some_iff.1 hget)
    refine ⟨hdistinct (name, v) (hperm.mem_iff.2 (by simp [hmem])), ?_⟩
    simp only [reserved, List.mem_cons, List.not_mem_nil, or_false]
    rintro (rfl | rfl)
    · exact hpath (List.mem_map_of_mem hmem)
    · exact hparameters (List.mem_map_of_mem hmem)
  · refine Dict.beq_of_get? ?_ fun name v hget => ?_
    · have hlength := hperm.length_eq
      simp only [List.length_cons, hm.length] at hlength
      rw [hentries.length_eq]
      omega
    · obtain ⟨w, hw, hvw⟩ := hm.extra name v hget
      refine ⟨w, ?_, hvw⟩
      -- a name that is not reserved is looked up behind the path and the parameters
      have hname := (h name v hget).2
      simp only [reserved, List.mem_cons, List.not_mem_nil, or_false, not_or] at hname
      rw [Dict.get?_ofList hrest, ← hw, lookup_eq_of_perm hperm hn, List.lookup_cons,
        List.lookup_cons, beq_eq_false_iff_ne.2 hname.1, beq_eq_false_iff_ne.2 hname.2]

end Matches

/-- A descriptor is written as an object that is alike to those with its path, items that equal its
parameters, and its other members, in any order. -/
theorem alike_of_perm (hshown : Shown l.parameters items) (hn : ms.names.Nodup)
    (hp : ms.Perm (("CollectionPath", .str l.path) :: ("Parameters", .arr items) ::
      l.extra.entries)) : l.toJson.Alike (.obj ms) := by
  refine (alike_obj ?_ hn).symm
  rw [Members.bag_eq_of_perm hp, Members.bag_cons, Members.bag_cons ("Parameters", _),
    ← Members.bag_singleton_congr hshown.alike, ← Members.bag_cons, ← Members.bag_cons]

end ValueList

namespace Annotation

/-- A descriptor that is held as one is written as a value that equals the given one. -/
theorem same_of_list? {l : ValueList} {v : Json} (h : list? v = some l) :
    (l.toJson == v) = true := by
  have hl := ValueList.readsBack (free_of_list? h)
  rw [← merged_of_distinct _ hl.distinct]
  exact (list?_eq_some_iff.1 h).2

/-- **An object that equals a written descriptor is held as an equal descriptor.** -/
theorem list?_of_same {l : ValueList} (h : l.extra.Free ValueList.reserved) {v : Json}
    (hv : v.Distinct) (hs : (l.toJson == v) = true) :
    ∃ l', list? v = some l' ∧ l'.path = l.path ∧ l'.parameters = l.parameters ∧
      (l.extra == l'.extra) = true := by
  obtain ⟨ms, items, rfl, hm⟩ := ValueList.exists_matches h hs
  obtain ⟨extra, hperm, hfree, hextra⟩ := hm.exists_extra h hv
  -- the members of the bag are those of the object, not those of `l`, which only equal them
  let l' : ValueList := ⟨l.path, l.parameters, extra⟩
  have hl' : ReadsBack ValueList.read ValueList.toJson l' := ValueList.readsBack hfree
  have hread : ValueList.read (.ofJson (.obj ms)) = .ok l' :=
    ValueList.read_of_perm (l := l') hfree hm.shown.asList hv.1 hperm
  have hsame : (l'.toJson == Json.obj ms) = true :=
    same_of_alike _ _ hl'.distinct hv (ValueList.alike_of_perm hm.shown hv.1 hperm)
  rw [← merged_of_distinct _ hl'.distinct] at hsame
  exact ⟨l', list?_eq_some_iff.2 ⟨hread, hsame⟩, rfl, rfl, hextra⟩

/-- For the key of descriptors a value is taken in as a descriptor, if it is held as one, and by its
shape otherwise. -/
theorem ofJson_valueList (v : Json) :
    ofJson .valueList v = (list? v).elim (ofShape v) .list := by
  cases v with
  | obj ms =>
      rw [ofJson]
      cases list? (.obj ms) <;> rfl
  | _ => rfl

end Annotation

/-! ## Objects that equal no written descriptor -/

namespace ValueList

/-- An object that no descriptor is written as: it has no parameters, or one of its parameters has a
member that does not belong to its type, has no known type, or is written as a sequence. -/
inductive Unfit (ms : Members Json) : Prop
  | noParameters (h : ms.lookup "Parameters" = none)
  | extraMember {items : List Json} {ns : Members Json} {kind : ParameterKind} {name : String}
      (h : ms.lookup "Parameters" = some (.arr items)) (hitem : Json.obj ns ∈ items)
      (htype : ns.lookup "$Type" = some (.str kind.word)) (hname : name ∈ ns.names)
      (hextra : name ∉ "$Type" :: kind.members)
  | unknownType {items : List Json} {ns : Members Json}
      (h : ms.lookup "Parameters" = some (.arr items)) (hitem : Json.obj ns ∈ items)
      (htype : ∀ kind : ParameterKind, ns.lookup "$Type" ≠ some (.str kind.word))
  | listed {items xs : List Json}
      (h : ms.lookup "Parameters" = some (.arr items)) (hitem : Json.arr xs ∈ items)

/-- An item that equals a written parameter is an object with its type and its members. -/
theorem Parameter.exists_of_same {p : Parameter} {item : Json} (h : p.toJson.same item = true) :
    ∃ ns : Members Json, item = .obj ns ∧ ns.lookup "$Type" = some (.str p.kind.word) ∧
      ∀ name ∈ ns.names, name ∈ "$Type" :: p.kind.members := by
  rw [p.toJson_eq] at h
  obtain ⟨ts, hperm, rfl⟩ := exists_perm_of_same_texts p.nodup_texts h
  have hnames : (ts.names).Perm (typeMember :: p.kind.members) :=
    p.names_texts ▸ hperm.map Prod.fst
  refine ⟨_, rfl, ?_, fun name hname => ?_⟩
  · have hn : ((ts.map textMember).map Prod.fst).Nodup := by
      rw [show (ts.map textMember).map Prod.fst = ts.names from names_map_textMember ts]
      exact hnames.nodup_iff.2 (nodup_members p.kind)
    exact lookup_eq_of_perm (hperm.map textMember) hn "$Type"
  · rw [names_map_textMember] at hname
    exact hnames.subset hname

/-- Every item of written parameters equals one of them. -/
theorem Shown.exists_of_mem {ps : List Parameter} {items : List Json} (h : Shown ps items)
    {item : Json} (hitem : item ∈ items) : ∃ p : Parameter, p.toJson.same item = true := by
  induction h with
  | nil => cases hitem
  | @cons p _ _ _ hp _ ih =>
      rcases List.mem_cons.1 hitem with rfl | hitem
      · exact ⟨p, hp⟩
      · exact ih hitem

/-- An unfit object equals no written descriptor. -/
theorem Unfit.not_same {ms : Members Json} (hu : Unfit ms) {l : ValueList}
    (h : l.extra.Free reserved) : ¬(l.toJson == Json.obj ms) = true := by
  intro hs
  obtain ⟨ms, items, heq, hm⟩ := exists_matches h hs
  obtain rfl := Json.obj.inj heq
  -- every item is an object with the type and the members of a parameter
  have hitem : ∀ {items' item}, ms.lookup "Parameters" = some (.arr items') → item ∈ items' →
      ∃ (p : Parameter) (ns : Members Json), item = .obj ns ∧
        ns.lookup "$Type" = some (.str p.kind.word) ∧
          ∀ name ∈ ns.names, name ∈ "$Type" :: p.kind.members := by
    intro items' item hitems hmem
    obtain rfl := Json.arr.inj (Option.some.inj (hm.parameters.symm.trans hitems))
    obtain ⟨p, hp⟩ := hm.shown.exists_of_mem hmem
    exact ⟨p, Parameter.exists_of_same hp⟩
  cases hu with
  | noParameters hnone => cases hm.parameters.symm.trans hnone
  | extraMember hitems hmem htype hname hextra =>
      obtain ⟨p, ns, hns, hkind, hnames⟩ := hitem hitems hmem
      obtain rfl := Json.obj.inj hns
      have hword := Json.str.inj (Option.some.inj (htype.symm.trans hkind))
      exact hextra (ParameterKind.word_injective hword ▸ hnames _ hname)
  | unknownType hitems hmem htype =>
      obtain ⟨p, ns, hns, hkind, -⟩ := hitem hitems hmem
      obtain rfl := Json.obj.inj hns
      exact htype p.kind hkind
  | listed hitems hmem =>
      obtain ⟨p, ns, hns, -⟩ := hitem hitems hmem
      cases hns

end ValueList

/-! ## Given values -/

namespace Annotations

open Annotation

variable {v : Json} {a : Annotations}

/-- The descriptor of annotations is the one that the given value is held as. -/
theorem Given.valueList?_eq (h : a.Given .valueList v) : a.valueList? = list? v := by
  rw [valueList?, h.get?_eq, ofJson_valueList]
  cases list? v with
  | none => cases v <;> rfl
  | some l => rfl

/-- A given value that is held as no descriptor is kept as it is. -/
theorem Given.get?_of_list?_none (h : a.Given .valueList v) (hnone : list? v = none) :
    a.get? .valueList = some (ofShape v) := by
  rw [h.get?_eq, ofJson_valueList, hnone]
  rfl

/-- **Which values are held as descriptors.**  A value that was given for the key of descriptors is
held as one exactly when it equals what is written of some descriptor whose other members have names
of their own; and then the descriptor that is held has the same path, the same parameters and equal
other members.  An unfit object is kept as it is. -/
theorem valueList?_given (h : a.Given .valueList v) :
    ((∃ l, a.valueList? = some l) ↔
      ∃ l : ValueList, l.extra.Free ValueList.reserved ∧ (l.toJson == v) = true) ∧
    (∀ l : ValueList, l.extra.Free ValueList.reserved → (l.toJson == v) = true →
      ∃ l', a.valueList? = some l' ∧ l'.path = l.path ∧ l'.parameters = l.parameters ∧
        (l.extra == l'.extra) = true) ∧
    ∀ ms, v = .obj ms → ValueList.Unfit ms → a.get? .valueList = some (.raw v) := by
  rw [h.valueList?_eq]
  have hheld : ∀ l : ValueList, l.extra.Free ValueList.reserved → (l.toJson == v) = true →
      ∃ l', list? v = some l' ∧ l'.path = l.path ∧ l'.parameters = l.parameters ∧
        (l.extra == l'.extra) = true := fun _ hfree hs => list?_of_same hfree h.distinct hs
  refine ⟨⟨fun ⟨l, hl⟩ => ?_, fun ⟨l, hfree, hs⟩ => ?_⟩, hheld, ?_⟩
  · exact ⟨l, free_of_list? hl, same_of_list? hl⟩
  · obtain ⟨l', hl', -⟩ := hheld l hfree hs
    exact ⟨l', hl'⟩
  · rintro ms rfl hu
    refine h.get?_of_list?_none (Option.eq_none_iff_forall_ne_some.2 fun l hl => ?_)
    exact hu.not_same (free_of_list? hl) (same_of_list? hl)

/-- A descriptor with a parameter of each kind and two other members. -/
def sampleList : ValueList where
  path := "Codes"
  parameters := [.inOut "status" "code", .input "lang" "locale", .output "text" "name",
    .displayOnly "info", .constant "list" "status"]
  extra := Dict.ofList [("Label", .obj [("en", .str "Code"), ("nl", .str "Cijfer")]),
    ("SearchSupported", .bool true)]

/-- What is written of that descriptor, with the members of each object in another order. -/
def shuffled : Json :=
  .obj [("SearchSupported", .bool true), ("Parameters", .arr [
    .obj [("ValueListProperty", .str "code"), ("LocalDataProperty", .str "status"),
      ("$Type", .str "Common.ValueListParameterInOut")],
    .obj [("LocalDataProperty", .str "lang"), ("$Type", .str "Common.ValueListParameterIn"),
      ("ValueListProperty", .str "locale")],
    .obj [("ValueListProperty", .str "name"), ("$Type", .str "Common.ValueListParameterOut"),
      ("LocalDataProperty", .str "text")],
    .obj [("ValueListProperty", .str "info"),
      ("$Type", .str "Common.ValueListParameterDisplayOnly")],
    .obj [("Constant", .str "status"), ("$Type", .str "Common.ValueListParameterConstant"),
      ("ValueListProperty", .str "list")]]),
    ("CollectionPath", .str "Codes"), ("Label", .obj [("nl", .str "Cijfer"), ("en", .str "Code")])]

/-- A descriptor with a member in its parameter that does not belong there. -/
def overfull : Members Json :=
  [("CollectionPath", .str "Codes"), ("Parameters", .arr [
    .obj [("$Type", .str "Common.ValueListParameterDisplayOnly"),
      ("ValueListProperty", .str "code"), ("![@UI.Importance]", .str "High")]])]

/-- An element that gives two values for the key of descriptors, the shuffled descriptor last. -/
def column : Document :=
  .obj [(.str "@Common.ValueList", .null), (.str "type", .str "cds.String"),
    (.str "@Common.ValueList", .ofJson shuffled)] true

/-- The shuffled descriptor is held as the descriptor that it is written of, since the element gives
it last; the overfull one is kept as it is. -/
theorem valueList?_given_shuffled :
    (∃ e, Element.read column = .ok e ∧ ∃ l, e.annotations.valueList? = some l ∧
      l.path = sampleList.path ∧ l.parameters = sampleList.parameters ∧
        (sampleList.extra == l.extra) = true) ∧
    (empty.put "@Common.ValueList" (.obj overfull)).get? .valueList =
      some (.raw (.obj overfull)) := by
  constructor
  · have hread : (Element.read column).toOption.isSome = true := by decide +kernel
    obtain ⟨e, he⟩ := Option.isSome_iff_exists.1 hread
    have he := eq_ok_of_toOption he
    have hgives : column.Gives "@Common.ValueList" shuffled :=
      @Document.Gives.last _ _ [(.str "@Common.ValueList", .null), (.str "type", .str "cds.String")]
        [] _ _ rfl nofun
    have hlabel : (Json.obj [("en", .str "Code"), ("nl", .str "Cijfer")]).Distinct :=
      ⟨by decide, trivial, trivial, trivial⟩
    have hfree : sampleList.extra.Free ValueList.reserved :=
      ((Dict.free_empty _).insert (by decide) hlabel).insert (by decide) trivial
    exact ⟨e, he, (valueList?_given (.element hgives he)).2.1 sampleList hfree (by decide +kernel)⟩
  · have hdistinct : (Json.obj overfull).Distinct :=
      Document.distinct_of_toJson? (.ofJson (.obj overfull)) rfl
    have hextra : ValueList.Unfit overfull :=
      @ValueList.Unfit.extraMember _ _ _ .displayOnly "![@UI.Importance]" rfl List.mem_cons_self rfl
        (by decide) (by decide)
    exact (valueList?_given (.filed empty hdistinct)).2.2 overfull rfl hextra

end Annotations

end Picklist
