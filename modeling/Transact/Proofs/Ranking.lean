/-
# Transact.Proofs.Ranking -- the order in which locks are taken

The order of keys goes by sort, number and parts, one after the other, so it is an order as each of
them is (`ResourceKey.Below`).  A canonical request lists each of its resources after all that are
below it (`canonical_ascending`), and every file comes before every pipe.
-/
import Transact.Proofs.Access

namespace Transact

set_option autoImplicit false

/-! ## Orders put together -/

theorem compareRanks_lex : compareRanks = compareLex (compareOn Prod.fst) (compareOn Prod.snd) := rfl

theorem compareParts_lex : compareParts = List.compareLex compareRanks := by
  funext as bs
  induction as generalizing bs with
  | nil => cases bs <;> rfl
  | cons a as ih =>
      cases bs with
      | nil => rfl
      | cons b bs =>
          simp only [compareParts, List.compareLex, ih]
          cases compareRanks a b <;> rfl

instance : Std.TransCmp compareRanks := by
  rw [compareRanks_lex]
  infer_instance

instance : Std.TransCmp compareParts := by
  rw [compareParts_lex]
  infer_instance

namespace ResourceKey

theorem order_lex : order =
    compareLex (compareOn ResourceKey.sort)
      (compareLex (compareOn ResourceKey.number) fun a b => compareParts a.parts b.parts) := rfl

instance : Std.TransCmp fun a b : ResourceKey => compareParts a.parts b.parts where
  eq_swap := Std.OrientedCmp.eq_swap
  isLE_trans := Std.TransCmp.isLE_trans

instance : Std.TransCmp order := by
  rw [order_lex]
  infer_instance

/-! ## Below -/

/-- Asked for earlier. -/
def Below (a b : ResourceKey) : Prop := a.order b = .lt

instance (a b : ResourceKey) : Decidable (a.Below b) := inferInstanceAs (Decidable (_ = _))

theorem Below.trans {a b c : ResourceKey} (first : a.Below b) (second : b.Below c) : a.Below c :=
  Std.TransCmp.lt_trans first second

theorem Below.irrefl (a : ResourceKey) : ¬ a.Below a := by
  have same : a.order a = .eq := Std.ReflCmp.compare_self
  rw [Below, same]
  decide

theorem below_of_gt {a b : ResourceKey} (later : a.order b = .gt) : b.Below a :=
  Std.OrientedCmp.gt_iff_lt.1 later

/-- A lower sort comes first. -/
theorem below_of_sort {a b : ResourceKey} (lower : a.sort < b.sort) : a.Below b := by
  simp only [Below, order, Ordering.then_eq_lt, Nat.compare_eq_lt]
  exact Or.inl lower

end ResourceKey

namespace ResourceId

/-! ## Requests -/

theorem insertOnce_ascending (id : ResourceId) {ids : List ResourceId}
    (ascending : (ids.map key).Pairwise ResourceKey.Below) :
    ((insertOnce id ids).map key).Pairwise ResourceKey.Below := by
  induction ids with
  | nil => exact List.pairwise_singleton _ _
  | cons other rest ih =>
      obtain ⟨least, others⟩ := List.pairwise_cons.1 ascending
      simp only [insertOnce]
      cases place : id.order other with
      | lt =>
          refine List.pairwise_cons.2 ⟨fun k member => ?_, ascending⟩
          rcases List.mem_cons.1 member with rfl | there
          · exact place
          · exact ResourceKey.Below.trans place (least k there)
      | eq => exact ascending
      | gt =>
          refine List.pairwise_cons.2 ⟨fun k member => ?_, ih others⟩
          rcases (mem_keys_insertOnce id rest k).1 member with rfl | there
          · exact ResourceKey.below_of_gt place
          · exact least k there

/-- **A request asks for its resources in ascending order**, each once. -/
theorem canonical_ascending (ids : List ResourceId) :
    ((canonical ids).map key).Pairwise ResourceKey.Below := by
  have each (acc : List ResourceId) (ascending : (acc.map key).Pairwise ResourceKey.Below) :
      ((ids.foldl (fun acc id => insertOnce id acc) acc).map key).Pairwise ResourceKey.Below := by
    induction ids generalizing acc with
    | nil => exact ascending
    | cons id rest ih => exact ih _ (insertOnce_ascending id ascending)
  exact each [] .nil

end ResourceId

end Transact
