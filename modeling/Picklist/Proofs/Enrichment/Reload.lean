/-
# Saving and reloading an enriched schema

What enrichment writes is stable: kinds, types and keys that have a meaning, flags, texts and
descriptors without other members.  So runs keep a stable schema stable, and whatever was read
and then enriched reads back from its saved form.

* `stable_run` and `stable_runAll` : one run keeps a schema stable, and so do many;
* `flag_run` : after a run its metadata key counts as set;
* `reload_runAll` : saving and reloading gives the schema again, and a plugin with the
  metadata key of the last run has nothing to do on it.
-/
import Picklist.Plugin
import Picklist.Proofs.Enrichment.Runs
import Picklist.Proofs.Schema.ReadBack

namespace Picklist

namespace Enrichment

/-! ## What is defined -/

theorem stable_column (shared : Bool) {annotations : Annotations}
    (h : annotations.Stable Element.reserved) : (column shared annotations).Stable where
  type t ht := by
    cases ht
    exact TypeRef.stable_named "cds.String"
  enum _ h := nomatch h
  annotations := by
    cases shared with
    | true => exact h.setFlag .coreComputed false
    | false => exact h

/-- The columns of the value list are stable. -/
theorem stable_columns (settings : Settings) (shared : Bool) :
    ∀ name e, (columns settings shared).get? name = some e → e.Stable := by
  intro name e hget
  have hplain := stable_column shared (Annotations.stable_empty Element.reserved)
  have htitle := Annotation.stable_text .title settings.title
  have htitled := stable_column shared ((Annotations.stable_empty Element.reserved).insert htitle)
  have hvalue : Element.Stable
      { column shared (Annotations.empty.setText .title settings.title) with key := true } :=
    { htitled with }
  rw [columns, Dict.get?_ofList (by simp), lookup_eq_some_iff_mem (by simp)] at hget
  simp only [List.mem_cons, List.not_mem_nil, or_false, Prod.mk.injEq] at hget
  rcases hget with ⟨-, rfl⟩ | ⟨-, rfl⟩ | ⟨-, rfl⟩
  · exact hvalue
  · exact hplain
  · exact hplain

theorem stable_entity {elements : Dict String Element}
    (h : ∀ name e, elements.get? name = some e → e.Stable) :
    (Definition.entity elements).Stable :=
  { Definition.stable_ofKind (k := .entity) rfl with elements := h }

theorem stable_listEntity (settings : Settings) : (listEntity settings).Stable :=
  { stable_entity (stable_columns settings true) with
    annotations := ((Annotations.stable_empty Definition.reserved).setFlag .readonly
      true).setFlag .persistenceSkip true }

theorem stable_projection (settings : Settings) : (projection settings).Stable :=
  { stable_entity (stable_columns settings false) with
    annotations := ((Annotations.stable_empty Definition.reserved).setFlag .autoexpose
      true).setFlag .readonly true }

/-! ## What is annotated -/

/-- Annotating keeps an element stable. -/
theorem stable_annotateElement (settings : Settings) (entity name : String) {e : Element}
    (h : e.Stable) : (annotateElement settings entity name e).Stable := by
  have hlist : Annotation.Stable .valueList (.list (.forElement settings.entity entity name)) :=
    Annotation.stable_list (Dict.free_empty ValueList.reserved)
  have hflagged : (if needsFixedValues e then e.annotations.setFlag .valueListWithFixedValues
      true else e.annotations).Stable Element.reserved := by
    split
    · exact h.annotations.setFlag .valueListWithFixedValues true
    · exact h.annotations
  by_cases hm : e.isMarked = true
  · rw [annotateElement, if_pos hm]
    refine { h with annotations := ?_ }
    show Annotations.Stable _ (if needsList e then Annotations.insert _ _ _ else _)
    split
    · exact hflagged.insert hlist
    · exact hflagged
  · rw [annotateElement, if_neg hm]
    exact h

/-- Wiring up keeps a definition stable. -/
theorem stable_wired (settings : Settings) (name : String) {d : Definition} (h : d.Stable) :
    (wired settings name d).Stable := by
  unfold wired
  split
  · have helements : ∀ element e,
        (annotateEntity settings name d).elements.get? element = some e → e.Stable := by
      intro element e hget
      rw [get?_elements_annotateEntity, Option.map_eq_some_iff] at hget
      obtain ⟨e, he, rfl⟩ := hget
      exact stable_annotateElement settings name element (h.elements element e he)
    refine { h with elements := helements, annotations := ?_ }
    show Annotations.Stable _ (if settings.markProcessed then _ else _)
    split
    · exact h.annotations.setFlag .enumValueHelpProcessed true
    · exact h.annotations
  · exact h

/-! ## Runs -/

/-- A run keeps a schema stable. -/
theorem stable_run (settings : Settings) {s : Schema} (h : s.Stable) :
    (run settings s).1.Stable := by
  unfold run
  split
  · exact h
  · refine ⟨fun n d hget => ?_, ?_, ?_⟩
    · -- a projection, the value-list entity, or what was there before and got wired up
      rw [get?_enrich] at hget
      split at hget
      · cases hget
        exact stable_projection settings
      · rw [get?_annotated] at hget
        split at hget
        · cases hget
          exact stable_listEntity settings
        · rw [Option.map_eq_some_iff] at hget
          obtain ⟨d, hd, rfl⟩ := hget
          exact stable_wired settings n (h.definitions n d hd)
    · rw [(metadata_enrich settings s).1]
      exact h.metadata.insert List.not_mem_nil trivial
    · rw [(metadata_enrich settings s).2]
      exact h.extra

theorem stable_runAll (settings : List Settings) {s : Schema} (h : s.Stable) :
    (runAll settings s).Stable := by
  induction settings generalizing s with
  | nil => exact h
  | cons first rest ih => exact ih (stable_run first h)

/-- After a run its metadata key counts as set, whether the run was skipped or not. -/
theorem flag_run (settings : Settings) (s : Schema) :
    (run settings s).1.flag settings.metaKey = true := by
  unfold run
  split
  · rename_i hflag
    exact hflag
  · rw [Schema.flag, (metadata_enrich settings s).1, Dict.get?_insert_self]
    rfl

/-- After runs the metadata key of the last one counts as set. -/
theorem flag_runAll {settings : List Settings} {last : Settings}
    (h : settings.getLast? = some last) (s : Schema) :
    (runAll settings s).flag last.metaKey = true := by
  obtain ⟨before, rfl⟩ := List.getLast?_eq_some_iff.1 h
  rw [runAll_append]
  exact flag_run last (runAll before s)

/-! ## Saving and reloading -/

/-- A stable schema is what is read off its saved form. -/
theorem decode_toValue {s : Schema} (h : s.Stable) :
    (Reading.ofJson s.toValue).decode Schema.read = .ok s := by
  have hback := Schema.readsBack h
  rw [Schema.toValue, Json.merged_of_distinct _ hback.distinct]
  exact bind_eq_ok_iff.2 ⟨s, hback.read_ofJson, rfl⟩

/-- **Saving and reloading is the identity.**  Let a schema be read off any text or value, and
let it be enriched any number of times.  What is read off its saved form is the same schema,
with every symbol of an enumeration in its place, so it is saved in the same form again.  A
plugin with the metadata key of the last run loads the same schema, and reports that it has
nothing to do. -/
theorem reload_runAll {r : Reading} {s : Schema} (hread : r.decode Schema.read = .ok s)
    (settings : List Settings) :
    (∃ s', (Reading.ofJson (runAll settings s).toValue).decode Schema.read = .ok s' ∧
        s' = runAll settings s ∧ s'.toValue = (runAll settings s).toValue) ∧
      ∀ last, settings.getLast? = some last → ∀ plugin : Plugin,
        plugin.settings.metaKey = last.metaKey →
        plugin.onLoaded (runAll settings s) = (runAll settings s, { skipped := true }) ∧
          plugin.loadValue (runAll settings s).toValue = .ok (runAll settings s) := by
  obtain ⟨s₀, hroot, hcomplete⟩ := bind_eq_ok_iff.1 hread
  have hs : s₀ = s := by
    split at hcomplete
    · exact Except.ok.inj hcomplete
    · cases hcomplete
  -- stability is what reading establishes, runs preserve and reloading needs
  have hstable := stable_runAll settings (Schema.stable_of_read (hs ▸ hroot))
  have hdecode := decode_toValue hstable
  refine ⟨⟨_, hdecode, rfl, rfl⟩, fun last hlast plugin hkey => ?_⟩
  have hskip : plugin.onLoaded (runAll settings s) =
      (runAll settings s, { skipped := true }) := by
    refine run_of_flag ?_
    rw [hkey]
    exact flag_runAll hlast s
  refine ⟨hskip, ?_⟩
  rw [Plugin.loadValue, Plugin.load, hdecode]
  simp only [hskip]

/-- A shop that two plugins enriched is what is read off its saved form, and a third plugin
with the metadata key of the second one has nothing to do on it. -/
theorem reload_runAll_shop :
    (Reading.ofJson shop.toValue).decode Schema.read = .ok shop ∧
      (Reading.ofJson (runAll [{ entity := "Old", metaKey := "old" }, {}] shop).toValue).decode
        Schema.read = .ok (runAll [{ entity := "Old", metaKey := "old" }, {}] shop) ∧
      ((Plugin.ofSettings { entity := "Other" }).onLoaded
        (runAll [{ entity := "Old", metaKey := "old" }, {}] shop)).2 = { skipped := true } := by
  have hread : (Reading.ofJson shop.toValue).decode Schema.read = .ok shop := rfl
  obtain ⟨⟨s', hs', heq, -⟩, hplugin⟩ :=
    reload_runAll hread [{ entity := "Old", metaKey := "old" }, {}]
  rw [heq] at hs'
  refine ⟨hread, hs', ?_⟩
  rw [(hplugin {} rfl (.ofSettings { entity := "Other" }) rfl).1]

end Enrichment

end Picklist
