/-
The sum of the values of a finite ordered map.

Storing a value under a key replaces the old contribution of that key, so
adding to one entry adds to the sum, whether or not the entry existed.
-/

import Mathlib

namespace Safire.Tally

open Std

variable {κ V : Type} {cmp : κ → κ → Ordering} [TransCmp cmp]

def total [AddCommGroup V] (entries : ExtTreeMap κ V cmp) : V :=
  (entries.toList.map Prod.snd).sum

private theorem nodup_toList (entries : ExtTreeMap κ V cmp) : entries.toList.Nodup := by
  have keysDistinct := entries.nodup_keys
  rw [← ExtTreeMap.map_fst_toList_eq_keys] at keysDistinct
  exact List.Nodup.of_map Prod.fst keysDistinct

variable [LawfulEqCmp cmp]

private theorem toList_insert_perm (entries : ExtTreeMap κ V cmp) (key : κ) (value : V) :
    (entries.insert key value).toList.Perm ((key, value) :: (entries.erase key).toList) := by
  have absent : (key, value) ∉ (entries.erase key).toList := by
    rw [ExtTreeMap.mem_toList_iff_getElem?_eq_some]
    simp
  refine (List.perm_ext_iff_of_nodup (nodup_toList _)
    (List.nodup_cons.mpr ⟨absent, nodup_toList _⟩)).mpr ?_
  rintro ⟨other, held⟩
  simp only [List.mem_cons, ExtTreeMap.mem_toList_iff_getElem?_eq_some,
    ExtTreeMap.getElem?_insert, ExtTreeMap.getElem?_erase, Prod.mk.injEq]
  by_cases same : key = other
  · subst same
    simp only [ReflCmp.compare_self, if_true, Option.some.injEq, true_and, reduceCtorEq, or_false]
    exact eq_comm
  · simp [same, Ne.symm same]

private theorem total_erase [AddCommGroup V] (entries : ExtTreeMap κ V cmp) (key : κ) :
    total entries = entries.getD key 0 + total (entries.erase key) := by
  rw [ExtTreeMap.getD_eq_getD_getElem?]
  cases found : entries[key]? with
  | none =>
      have same : entries.erase key = entries := by
        apply ExtTreeMap.ext_getElem?
        intro other
        simp only [ExtTreeMap.getElem?_erase, LawfulEqCmp.compare_eq_iff_eq]
        by_cases equal : key = other
        · subst equal
          simp [found]
        · simp [equal]
      simp [same]
  | some value =>
      have same : entries.insert key value = entries := by
        apply ExtTreeMap.ext_getElem?
        intro other
        simp only [ExtTreeMap.getElem?_insert, LawfulEqCmp.compare_eq_iff_eq]
        by_cases equal : key = other
        · subst equal
          simp [found]
        · simp [equal]
      have permuted := (toList_insert_perm entries key value).map Prod.snd
      rw [same] at permuted
      simpa [total] using permuted.sum_eq

omit [LawfulEqCmp cmp] in
theorem total_empty [AddCommGroup V] : total (∅ : ExtTreeMap κ V cmp) = 0 := by
  rw [total, ExtTreeMap.toList_eq_nil_iff.mpr rfl]
  rfl

theorem total_insert_add [AddCommGroup V] (entries : ExtTreeMap κ V cmp) (key : κ) (amount : V) :
    total (entries.insert key (entries.getD key 0 + amount)) = total entries + amount := by
  have permuted := (toList_insert_perm entries key (entries.getD key 0 + amount)).map Prod.snd
  have inserted :
      total (entries.insert key (entries.getD key 0 + amount)) =
        entries.getD key 0 + amount + total (entries.erase key) := by
    simpa [total] using permuted.sum_eq
  rw [inserted, total_erase entries key]
  abel

end Safire.Tally
