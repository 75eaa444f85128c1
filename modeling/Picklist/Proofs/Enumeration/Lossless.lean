/-
# Enumerations are kept

An entry of an enumeration may be taken apart into its explicit value and its other members.
Putting the explicit value back gives all members of the entry again, at most in another order.

* `Enumeration.Entry.toJson_ofJson_alike` : every entry is written as it was taken in;
* `Enumeration.lossless_read` : the same for every enumeration.
-/
import Picklist.Enumeration
import Picklist.Proofs.Lossless

namespace Picklist

open Json

/-- The scalar that a JSON value is has that value. -/
theorem Scalar.toJson_of_ofJson? {j : Json} {v : Scalar} (h : ofJson? j = some v) :
    v.toJson = j := by
  cases j with
  | arr items => cases h
  | obj members => cases h
  | _ => cases h; rfl

namespace Enumeration

namespace Entry

/-- An explicit value is the member `val`. -/
theorem lookup_val_of_explicit? {ms : Members Json} {v : Scalar} (h : explicit? ms = some v) :
    ms.lookup "val" = some v.toJson := by
  unfold explicit? at h
  split at h
  · cases h
  · rename_i j _ hlookup
    rw [hlookup, Scalar.toJson_of_ofJson? h]
  · cases h

/-- Every entry is written as it was taken in. -/
theorem toJson_ofJson_alike {j : Json} (hj : j.Distinct) : (ofJson j).toJson.Alike j := by
  cases j with
  | obj ms =>
      simp only [ofJson]
      split
      · rename_i v hv
        have hp := Members.perm_withdraw (lookup_val_of_explicit? hv)
        have hnodup := (hp.map Prod.fst).nodup_iff.1 hj.1
        have hnew : "val" ∉ (Members.withdraw "val" ms).names := (List.nodup_cons.1 hnodup).1
        have hback : (Members.put "val" v.toJson (Members.withdraw "val" ms)).Perm ms := by
          rw [Members.put_of_notMem hnew]
          exact (List.perm_append_singleton _ _).trans hp.symm
        exact alike_obj (Members.bag_eq_of_perm hback)
          ((hback.map Prod.fst).nodup_iff.2 hj.1)
      · rfl
  | _ => rfl

end Entry

/-- The members of a written enumeration. -/
def written (e : Enumeration) : Members Json :=
  e.entries.map fun (symbol, entry) => (symbol, entry.toJson)

/-- Every symbol keeps its entry. -/
theorem stepLossless_insert : StepLossless (fun e => (written e).bag) (fun _ v => some v)
    (fun e symbol d => d.asJson.map fun j => e.insert symbol (.ofJson j)) := by
  intro e e' symbol v hv hfresh h
  obtain ⟨j, hj, rfl⟩ := map_eq_ok_iff.1 h
  rw [Document.asJson_ofJson hv] at hj
  cases hj
  have hnames : e.written.names = e.entries.names := by
    simp [written, Members.names, Function.comp_def]
  have hnew : symbol ∉ e.entries.names := hnames ▸ Members.notMem_names_of_bag hfresh
  have hinsert : (e.insert symbol (.ofJson v)).written =
      e.written ++ [(symbol, (Entry.ofJson v).toJson)] := by
    rw [written, insert, Members.put_of_notMem hnew, List.map_append]
    rfl
  show (e.insert symbol (.ofJson v)).written.bag = _
  rw [hinsert, Members.bag_append]
  exact congrArg _ (Members.bag_singleton_congr (Entry.toJson_ofJson_alike hv) symbol)

/-- Every enumeration is written as it was read. -/
theorem lossless_read : Lossless read toJson id := by
  intro v e hv h
  have halike := stepLossless_insert.alike rfl hv h rfl
  rw [mapMembers_some] at halike
  exact halike

end Enumeration

end Picklist
