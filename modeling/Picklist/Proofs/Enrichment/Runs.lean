/-
# Any number of runs

Several plugins may enrich one schema, each with settings of its own.  What a run writes feeds
back into nothing: not into what is eligible, not into what an earlier run defined, and not
into a descriptor that is there.

* `KeptElement`, `KeptDefinition` and `Kept` : what runs leave of an element, of a definition
  and of a schema;
* `kept_run` and `kept_runAll` : one run keeps a schema in this sense, and so do many;
* `invariants_runAll` : what holds all along a sequence of runs, and what the first one that
  is not skipped makes of the marked elements.
-/
import Picklist.Proofs.Enrichment.Rerun

namespace Picklist

namespace Enrichment

/-! ## Sequences of runs -/

/-- The schema after runs with the given settings, in turn. -/
def runAll : List Settings → Schema → Schema
  | [], s => s
  | settings :: rest, s => runAll rest (run settings s).1

/-- The runs with the given settings in turn, each with its report. -/
def calls : List Settings → Schema → List (Settings × Report)
  | [], _ => []
  | settings :: rest, s => (settings, (run settings s).2) :: calls rest (run settings s).1

theorem runAll_append (before after : List Settings) (s : Schema) :
    runAll (before ++ after) s = runAll after (runAll before s) := by
  induction before generalizing s with
  | nil => rfl
  | cons settings rest ih => exact ih (run settings s).1

/-! ## What runs leave as it is -/

/-- What runs leave of an element: its two annotations for value lists may change if it is
marked, but not a descriptor that counts as set. -/
structure KeptElement (e e' : Element) : Prop where
  key : e'.key = e.key
  type : e'.type? = e.type?
  enum : e'.enum? = e.enum?
  others : ∀ k, k ≠ .valueListWithFixedValues → k ≠ .valueList →
    e'.annotations.get? k = e.annotations.get? k
  extra : e'.annotations.extra = e.annotations.extra
  unmarked : ¬Marked e → e' = e
  list : e.annotations.truthy .valueList = true →
    e'.annotations.get? .valueList = e.annotations.get? .valueList

/-- What runs leave of a definition: its elements are the same up to `KeptElement`, and it may
get marked as processed if it is eligible. -/
structure KeptDefinition (d d' : Definition) : Prop where
  kind : d'.kind = d.kind
  doc : d'.doc? = d.doc?
  type : d'.type? = d.type?
  enum : d'.enum? = d.enum?
  query : d'.query? = d.query?
  elements : ∀ name e, d.elements.get? name = some e →
    ∃ e', d'.elements.get? name = some e' ∧ KeptElement e e'
  absent : ∀ name, d.elements.get? name = none → d'.elements.get? name = none
  others : ∀ k, k ≠ .enumValueHelpProcessed → d'.annotations.get? k = d.annotations.get? k
  extra : d'.annotations.extra = d.annotations.extra
  ineligible : ¬Eligible d → d' = d

/-- A name that has an eligible definition. -/
def EligibleName (s : Schema) (n : String) : Prop := ∃ d, s.get? n = some d ∧ Eligible d

/-- What runs leave of a schema: every definition stays, up to `KeptDefinition`, and no name
gets or loses an eligible one. -/
structure Kept (s s' : Schema) : Prop where
  definitions : ∀ n d, s.get? n = some d → ∃ d', s'.get? n = some d' ∧ KeptDefinition d d'
  eligible : ∀ n, EligibleName s' n ↔ EligibleName s n

namespace KeptElement

theorem refl (e : Element) : KeptElement e e :=
  ⟨rfl, rfl, rfl, fun _ _ _ => rfl, rfl, fun _ => rfl, fun _ => rfl⟩

theorem annotateElement (settings : Settings) (entity name : String) (e : Element) :
    KeptElement e (annotateElement settings entity name e) := by
  by_cases hm : Marked e
  · have hw := wiredElement_annotateElement settings entity name hm
    refine ⟨hw.key, hw.type, hw.enum, hw.others, hw.extra, fun h => absurd hm h, ?_⟩
    intro hlist
    rw [hw.valueList, if_neg (by simp [hlist])]
  · rw [annotateElement_of_not_marked settings entity name hm]
    exact refl e

variable {e e' e'' : Element}

theorem marked_iff (h : KeptElement e e') : Marked e' ↔ Marked e := by
  rw [Marked, Marked, Annotations.contains_congr (h.others _ (by decide) (by decide)),
    Annotations.contains_congr (h.others _ (by decide) (by decide))]

theorem trans (h : KeptElement e e') (h' : KeptElement e' e'') : KeptElement e e'' where
  key := h'.key.trans h.key
  type := h'.type.trans h.type
  enum := h'.enum.trans h.enum
  others k hfixed hlist := (h'.others k hfixed hlist).trans (h.others k hfixed hlist)
  extra := h'.extra.trans h.extra
  unmarked hm := (h'.unmarked (h.marked_iff.not.2 hm)).trans (h.unmarked hm)
  list ht := by
    have hget := h.list ht
    rw [h'.list ((Annotations.truthy_congr hget).trans ht), hget]

end KeptElement

namespace KeptDefinition

theorem refl (d : Definition) : KeptDefinition d d :=
  ⟨rfl, rfl, rfl, rfl, rfl, fun _ e h => ⟨e, h, .refl e⟩, fun _ h => h, fun _ _ => rfl, rfl,
    fun _ => rfl⟩

theorem wired (settings : Settings) (name : String) (d : Definition) :
    KeptDefinition d (wired settings name d) := by
  by_cases helig : Eligible d
  · have hw := wiredEntity_annotateEntity settings name d
    rw [Enrichment.wired, if_pos ((isEligible_iff d).2 helig)]
    refine ⟨hw.kind, hw.doc, hw.type, hw.enum, hw.query, ?_, hw.absent, hw.others, hw.extra,
      fun h => absurd helig h⟩
    intro element e hget
    refine ⟨_, ?_, .annotateElement settings name element e⟩
    rw [get?_elements_annotateEntity, hget, Option.map_some]
  · rw [Enrichment.wired, if_neg ((isEligible_iff d).not.2 helig)]
    exact refl d

variable {d d' d'' : Definition}

/-- Whether a definition is eligible does not change. -/
theorem eligible_iff (h : KeptDefinition d d') : Eligible d' ↔ Eligible d := by
  refine ⟨fun helig => ?_, fun helig => ?_⟩
  · by_contra hd
    exact hd (h.ineligible hd ▸ helig)
  · have htruthy : ∀ k, k ≠ .enumValueHelpProcessed →
        d'.annotations.truthy k = d.annotations.truthy k :=
      fun k hk => Annotations.truthy_congr (h.others k hk)
    refine ⟨h.kind.trans helig.entity, ?_, ?_, ?_⟩
    · rw [htruthy _ (by decide)]
      exact helig.authored
    · rintro ⟨q, set, hq, hset, hop⟩
      exact helig.noUnion ⟨q, set, h.query ▸ hq, hset, hop⟩
    · rw [htruthy _ (by decide), htruthy _ (by decide)]
      refine helig.marked.imp_right (.imp_right ?_)
      rintro ⟨name, e, hget, hm⟩
      obtain ⟨e', hget', he⟩ := h.elements name e hget
      exact ⟨name, e', hget', he.marked_iff.2 hm⟩

theorem trans (h : KeptDefinition d d') (h' : KeptDefinition d' d'') :
    KeptDefinition d d'' where
  kind := h'.kind.trans h.kind
  doc := h'.doc.trans h.doc
  type := h'.type.trans h.type
  enum := h'.enum.trans h.enum
  query := h'.query.trans h.query
  elements name e hget := by
    obtain ⟨e', hget', he⟩ := h.elements name e hget
    obtain ⟨e'', hget'', he'⟩ := h'.elements name e' hget'
    exact ⟨e'', hget'', he.trans he'⟩
  absent name hnone := h'.absent name (h.absent name hnone)
  others k hk := (h'.others k hk).trans (h.others k hk)
  extra := h'.extra.trans h.extra
  ineligible hd := (h'.ineligible (h.eligible_iff.not.2 hd)).trans (h.ineligible hd)

end KeptDefinition

namespace Kept

theorem refl (s : Schema) : Kept s s :=
  ⟨fun _ d h => ⟨d, h, .refl d⟩, fun _ => Iff.rfl⟩

variable {s s' s'' : Schema}

theorem trans (h : Kept s s') (h' : Kept s' s'') : Kept s s'' where
  definitions n d hget := by
    obtain ⟨d', hget', hd⟩ := h.definitions n d hget
    obtain ⟨d'', hget'', hd'⟩ := h'.definitions n d' hget'
    exact ⟨d'', hget'', hd.trans hd'⟩
  eligible n := (h'.eligible n).trans (h.eligible n)

/-- A definition that is not eligible stays as it is. -/
theorem get?_of_not_eligible (h : Kept s s') {n : String} {d : Definition}
    (hget : s.get? n = some d) (hd : ¬Eligible d) : s'.get? n = some d := by
  obtain ⟨d', hget', hkept⟩ := h.definitions n d hget
  rw [hget', hkept.ineligible hd]

end Kept

/-! ## One run and many runs -/

/-- A skipped run changes nothing. -/
theorem run_of_skipped {settings : Settings} {s : Schema}
    (h : (run settings s).2.skipped = true) : (run settings s).1 = s := by
  unfold run at h ⊢
  split
  · rfl
  · rename_i hflag
    rw [if_neg hflag] at h
    cases h

/-- A run keeps a schema. -/
theorem kept_run (settings : Settings) (s : Schema) : Kept s (run settings s).1 := by
  cases hskip : (run settings s).2.skipped with
  | true =>
      rw [run_of_skipped hskip]
      exact .refl s
  | false =>
      rw [run_of_not_flag (flag_of_not_skipped hskip)]
      refine ⟨fun n d hget => ⟨_, get?_enrich_of_some hget, .wired settings n d⟩, fun n => ?_⟩
      constructor
      · rintro ⟨d', h⟩
        obtain ⟨d, hget, helig, -⟩ := eligible_enrich_iff.1 h
        exact ⟨d, hget, helig⟩
      · rintro ⟨d, hget, helig⟩
        exact ⟨_, eligible_enrich_iff.2 ⟨d, hget, helig, rfl⟩⟩

/-- Any number of runs keep a schema. -/
theorem kept_runAll (settings : List Settings) (s : Schema) : Kept s (runAll settings s) := by
  induction settings generalizing s with
  | nil => exact .refl s
  | cons first rest ih => exact (kept_run first s).trans (ih (run first s).1)

/-- What a run defines is not eligible. -/
theorem not_eligible_of_run {settings : Settings} {s : Schema} {n : String} {d : Definition}
    (hnew : s.get? n = none) (h : (run settings s).1.get? n = some d) : ¬Eligible d := by
  cases hskip : (run settings s).2.skipped with
  | true =>
      rw [run_of_skipped hskip, hnew] at h
      cases h
  | false =>
      rw [run_of_not_flag (flag_of_not_skipped hskip)] at h
      exact not_eligible_of_new hnew h

/-- The first run that is not skipped gives every marked element of an eligible entity that
has no descriptor the one that points at its value list, and all later runs leave it there. -/
theorem valueList_runAll {settings : List Settings} {s : Schema} {first : Settings}
    {report : Report}
    (hfirst : (calls settings s).find? (fun call => !call.2.skipped) = some (first, report))
    {n name : String} {d : Definition} {e : Element} (hget : s.get? n = some d)
    (helig : Eligible d) (he : d.elements.get? name = some e) (hm : Marked e)
    (hlist : e.annotations.truthy .valueList = false) :
    ∃ d' e', (runAll settings s).get? n = some d' ∧ d'.elements.get? name = some e' ∧
      e'.annotations.get? .valueList = some (.list (.forElement first.entity n name)) := by
  induction settings generalizing s with
  | nil => cases hfirst
  | cons c rest ih =>
      rw [calls, List.find?_cons] at hfirst
      cases hskip : (run c s).2.skipped with
      | true =>
          simp only [hskip, Bool.not_true] at hfirst
          rw [run_of_skipped hskip] at hfirst
          rw [runAll, run_of_skipped hskip]
          exact ih hfirst hget
      | false =>
          simp only [hskip, Bool.not_false, Option.some.injEq, Prod.mk.injEq] at hfirst
          obtain ⟨rfl, -⟩ := hfirst
          -- the descriptor is written by this run, and it counts as set from then on
          have hw := (wiredElement_annotateElement c n name hm).valueList
          rw [if_pos hlist] at hw
          have hnow : (run c s).1.get? n = some (annotateEntity c n d) := by
            rw [run_of_not_flag (flag_of_not_skipped hskip)]
            exact (eligible_enrich_iff.2 ⟨d, hget, helig, rfl⟩).1
          obtain ⟨d', hd', hkept⟩ := (kept_runAll rest (run c s).1).definitions n _ hnow
          have helement : (annotateEntity c n d).elements.get? name =
              some (annotateElement c n name e) := by
            rw [get?_elements_annotateEntity, he, Option.map_some]
          obtain ⟨e', he', hkept'⟩ := hkept.elements name _ helement
          refine ⟨d', e', hd', he', ?_⟩
          rw [hkept'.list (by rw [Annotations.truthy, hw]; rfl), hw]

/-- **Invariants of a sequence of runs.**  From any point of the sequence to any later one, the
schema is kept: the eligible names are the same, every definition stays, and of an eligible
one only the annotations change that enrichment writes, but no descriptor that counts as set.
What a run defines, no later run changes.  And a marked element of an eligible entity that
has no descriptor gets that of the first run that is not skipped, for good. -/
theorem invariants_runAll (s : Schema) (before after : List Settings) :
    Kept (runAll before s) (runAll (before ++ after) s) ∧
      (∀ settings n d, (runAll before s).get? n = none →
        (runAll (before ++ [settings]) s).get? n = some d →
        (runAll (before ++ settings :: after) s).get? n = some d) ∧
      ∀ first report,
        (calls after (runAll before s)).find? (fun call => !call.2.skipped) =
          some (first, report) →
        ∀ n d name e, (runAll before s).get? n = some d → Eligible d →
          d.elements.get? name = some e → Marked e →
          e.annotations.truthy .valueList = false →
          ∃ d' e', (runAll (before ++ after) s).get? n = some d' ∧
            d'.elements.get? name = some e' ∧
            e'.annotations.get? .valueList = some (.list (.forElement first.entity n name)) := by
  refine ⟨?_, ?_, ?_⟩
  · rw [runAll_append]
    exact kept_runAll after (runAll before s)
  · intro settings n d hnew hget
    rw [runAll_append] at hget ⊢
    exact (kept_runAll after _).get?_of_not_eligible hget (not_eligible_of_run hnew hget)
  · intro first report hfirst n d name e hget helig he hm hlist
    rw [runAll_append]
    exact valueList_runAll hfirst hget helig he hm hlist

/-- In a shop that carries the mark of one of three plugins, the marked element points at the
value list of the second, which is the first one that is not skipped. -/
theorem invariants_runAll_shop :
    ∃ report,
      (calls [{ entity := "Old", metaKey := "old" }, {}, { entity := "Late", metaKey := "late" }]
        (shop.setFlag "old")).find? (fun call => !call.2.skipped) = some ({}, report) ∧
      ∃ d' e', (runAll [{ entity := "Old", metaKey := "old" }, {},
          { entity := "Late", metaKey := "late" }] (shop.setFlag "old")).get? "Sales.Orders" =
            some d' ∧ d'.elements.get? "status" = some e' ∧
        e'.annotations.get? .valueList =
          some (.list (.forElement "EnumValueHelpView" "Sales.Orders" "status")) := by
  have hfirst : (calls [{ entity := "Old", metaKey := "old" }, {},
      { entity := "Late", metaKey := "late" }] (shop.setFlag "old")).find?
        (fun call => !call.2.skipped) = some ({}, (run {} (shop.setFlag "old")).2) := by
    decide
  have helement : orders.elements.get? "status" = some status := by
    simp [orders, Definition.entity]
  exact ⟨_, hfirst, (invariants_runAll (shop.setFlag "old") [] _).2.2 _ _ hfirst _ _ _ _
    get?_shop_orders eligible_orders helement ((isMarked_iff status).1 (by decide))
    (by decide)⟩

end Enrichment

end Picklist
