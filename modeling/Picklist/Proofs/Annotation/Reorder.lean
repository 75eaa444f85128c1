/-
# Descriptors whose members stand in any order

A descriptor is read off its members, and so is each of its parameters.  Neither depends on the
order of these members, although a parameter is read in two passes: its type name is taken out
first, and the texts of its kind are collected then.

* `Parameter.read_of_perm` : a parameter is read off its texts in any order;
* `Shown.asList` : so items that equal written parameters are read as these parameters;
* `ValueList.filed_step` : a descriptor files its members in two slots and a bag;
* `ValueList.read_of_perm` : a descriptor is read off its members in any order.
-/
import Picklist.Proofs.Annotation.ReadBack
import Picklist.Proofs.Layout

namespace Picklist

open Json

namespace ValueList

/-! ## Parameters -/

/-- A type name is read as its kind. -/
theorem ParameterKind.read_word (kind : ParameterKind) :
    ParameterKind.read (.str kind.word) = .ok kind := by
  cases kind <;> rfl

theorem ParameterKind.word_injective {a b : ParameterKind} (h : a.word = b.word) : a = b := by
  have ha := ParameterKind.read_word a
  rw [h, ParameterKind.read_word b] at ha
  exact (Except.ok.inj ha).symm

namespace Parameter

variable {p : Parameter} {ts : Members String}

/-- Members other than the type name are kept for later, last first. -/
theorem stepMembers_others (h : typeMember ∉ ts.names) (kind : Option ParameterKind)
    (ms : Members Json) :
    Document.stepMembers step ⟨kind, ms⟩ (Document.ofMembers (ts.map textMember)) =
      .ok ⟨kind, (ts.map textMember).reverse ++ ms⟩ := by
  induction ts generalizing ms with
  | nil => rfl
  | cons t rest ih =>
      rw [Members.names, List.map_cons, List.mem_cons, not_or] at h
      have hstep : step ⟨kind, ms⟩ t.1 (.str t.2) = .ok ⟨kind, textMember t :: ms⟩ :=
        if_neg (Ne.symm h.1)
      refine bind_eq_ok_iff.2 ⟨_, hstep, (ih h.2 _).trans ?_⟩
      rw [List.map_cons, List.reverse_cons, List.append_assoc]
      rfl

/-- The texts of the members of a kind are collected, last first. -/
theorem collect_texts {kind : ParameterKind} {found : Members String}
    (hmem : ∀ name ∈ ts.names, name ∈ kind.members) (hn : (ts.names ++ found.names).Nodup) :
    collect kind found (ts.map textMember) = .ok (ts.reverse ++ found) := by
  induction ts generalizing found with
  | nil => rfl
  | cons t rest ih =>
      rw [Members.names, List.map_cons, List.forall_mem_cons] at hmem
      have hnew : found.lookup t.1 = none := by
        rw [lookup_eq_none_iff_notMem]
        exact fun hfound => (List.disjoint_of_nodup_append hn) List.mem_cons_self hfound
      rw [List.map_cons, textMember, collect, if_pos hmem.1, hnew, List.reverse_cons,
        List.append_assoc]
      -- the text joins those that were found already
      exact ih hmem.2 (List.perm_middle.nodup_iff.2 hn)

/-- A parameter is built from its texts. -/
theorem build_fields (p : Parameter) :
    (p.kind.build fun name => required name (p.fields.lookup name)) = .ok p := by
  cases p <;> rfl

/-- The texts of a parameter in any order have the names of its kind. -/
theorem names_of_perm (h : ts.Perm p.fields) : ts.names.Perm p.kind.members :=
  p.names_fields ▸ h.map Prod.fst

/-- A parameter is put together from its texts in any order. -/
theorem ofMembers_of_perm (h : ts.Perm p.fields) :
    ofMembers p.kind (ts.map textMember) = .ok p := by
  have hn : ts.names.Nodup := (names_of_perm h).nodup_iff.2 (nodup_members p.kind).of_cons
  have hreverse : ts.reverse.Perm ts := List.reverse_perm ts
  have hlookup : ∀ name, ts.reverse.lookup name = p.fields.lookup name :=
    lookup_eq_of_perm (hreverse.trans h) ((hreverse.map Prod.fst).nodup_iff.2 hn)
  have hcollect : collect p.kind [] (ts.map textMember) = .ok (ts.reverse ++ []) :=
    collect_texts (fun name hname => (names_of_perm h).subset hname)
      (by rwa [Members.names, Members.names, List.map_nil, List.append_nil])
  rw [List.append_nil] at hcollect
  refine bind_eq_ok_iff.2 ⟨ts.reverse, hcollect, ?_⟩
  simp only [hlookup, build_fields]

/-- A parameter is read off its texts in any order. -/
theorem read_of_perm (h : ts.Perm p.texts) : read (.ofJson (Json.texts ts)) = .ok p := by
  -- the type name stands somewhere among the other members
  obtain ⟨pre, post, rfl⟩ := List.append_of_mem (h.mem_iff.2 List.mem_cons_self)
  have hfields : (pre ++ post).Perm p.fields := (List.perm_middle.symm.trans h).cons_inv
  have hother : typeMember ∉ Members.names (pre ++ post) := fun hm =>
    (List.nodup_cons.1 (nodup_members p.kind)).1 ((names_of_perm hfields).subset hm)
  rw [Members.names, List.map_append, List.mem_append, not_or] at hother
  have htype : ∀ ms, step ⟨none, ms⟩ typeMember (.str p.kind.word) = .ok ⟨some p.kind, ms⟩ := by
    intro ms
    rw [step, if_pos rfl, once, ParameterKind.read_word]
    rfl
  have hall : Document.stepMembers step ⟨none, []⟩
      (Document.ofMembers ((pre ++ (typeMember, p.kind.word) :: post).map textMember)) =
        .ok ⟨some p.kind, ((pre ++ post).map textMember).reverse⟩ := by
    rw [List.map_append, Document.ofMembers_append, Document.stepMembers_append,
      stepMembers_others hother.1]
    refine bind_eq_ok_iff.2 ⟨_, rfl, bind_eq_ok_iff.2 ⟨_, htype _, ?_⟩⟩
    rw [stepMembers_others hother.2, List.map_append, List.reverse_append, List.append_nil]
  have hread := ofMembers_of_perm hfields
  rw [← List.reverse_reverse ((pre ++ post).map textMember)] at hread
  exact bind_eq_ok_iff.2 ⟨_, Document.foldMembers_ofJson_obj "" hall,
    bind_eq_ok_iff.2 ⟨_, rfl, hread⟩⟩

end Parameter

/-- Items that equal written parameters are read as these parameters. -/
theorem Shown.asList {ps : List Parameter} {items : List Json} (h : Shown ps items) :
    Document.asList Parameter.read (.ofJson (.arr items)) = .ok ps := by
  refine Document.asList_of_forall₂ (h.imp fun p item hsame => ?_)
  rw [p.toJson_eq] at hsame
  obtain ⟨ts, hperm, rfl⟩ := exists_perm_of_same_texts p.nodup_texts hsame
  exact Parameter.read_of_perm hperm

/-! ## Descriptors -/

/-- The layout of a descriptor: slots for the path and the parameters. -/
def layout : Layout Draft where
  slots := [
    .ofOnce "CollectionPath" Document.asText Draft.path fun path s => { s with path := path },
    .ofOnce "Parameters" (Document.asList Parameter.read) Draft.parameters
      fun parameters s => { s with parameters := parameters }]
  put name j s := { s with extra := s.extra.insert name j }

/-- The slots of a descriptor are apart from each other and from its other members. -/
theorem lawful_layout : layout.Lawful where
  slots_apart := by simp [layout, Slot.apart_iff, Slot.ofOnce]
  bag_apart := by simp [layout, Slot.apart_iff, Layout.bag, Slot.ofOnce]
  full := by simp [layout, Slot.ofOnce]
  put_comm a b x y s hab := by simp only [layout, Dict.insert_comm hab]
  put_put name x y s := by simp only [layout, Dict.insert_insert]

theorem filed_step : Filed step layout.slot := by
  refine lawful_layout.filed ?_ fun name hname s d => step_of_notMem s hname d
  simp [layout, Slot.fill_ofOnce, step]

/-- A descriptor is read off its members in any order: a path, items that are read as its
parameters, and free other members. -/
theorem read_of_perm {l : ValueList} (h : l.extra.Free reserved) {items : List Json}
    (hitems : Document.asList Parameter.read (.ofJson (.arr items)) = .ok l.parameters)
    {ms : Members Json} (hn : ms.names.Nodup)
    (hp : ms.Perm (("CollectionPath", .str l.path) :: ("Parameters", .arr items) ::
      l.extra.entries)) : read (.ofJson (.obj ms)) = .ok l := by
  have hall := filed_step.independent.stepMembers_perm hp.symm ((hp.map Prod.fst).nodup_iff.1 hn)
    (stepMembers_parts l.path hitems h)
  exact bind_eq_ok_iff.2 ⟨_, Document.foldMembers_ofJson_obj "struct ValueList" hall, rfl⟩

end ValueList

end Picklist
