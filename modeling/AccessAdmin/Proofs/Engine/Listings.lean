import AccessAdmin.Policy.Engine

/-!
# Sorted listings

A snapshot lists rules in the order of a comparison that tells any two of them apart, so the rows
of a listing determine it.

* `Permission.cmp`, `Membership.cmp`: the comparisons.
* `eq_of_sorted_perm`: two sorted lists of the same rows are equal.
* `filter_mergeSort`: leaving rows out before sorting or after it comes to the same.
-/

namespace AccessAdmin

section Sorting

variable {α : Type} {cmp : α → α → Ordering} [Std.TransCmp cmp]

theorem pairwise_mergeSort_isLE (xs : List α) :
    (xs.mergeSort fun a b => (cmp a b).isLE).Pairwise fun a b => (cmp a b).isLE = true := by
  refine List.pairwise_mergeSort (fun a b c h h' => ?_) (fun a b => ?_) xs
  · exact Std.TransCmp.isLE_trans h h'
  · rw [show cmp b a = (cmp a b).swap from Std.OrientedCmp.eq_swap]
    cases cmp a b <;> rfl

variable [Std.LawfulEqCmp cmp] {xs ys : List α}

/-- A comparison that tells any two rows apart allows one order of them only. -/
theorem eq_of_sorted_perm (hxs : xs.Pairwise fun a b => (cmp a b).isLE = true)
    (hys : ys.Pairwise fun a b => (cmp a b).isLE = true) (h : xs.Perm ys) : xs = ys := by
  refine List.Perm.eq_of_pairwise (fun a b _ _ hab hba => ?_) hxs hys h
  exact Std.LawfulEqCmp.eq_of_compare (Std.OrientedCmp.isLE_antisymm hab hba)

/-- Rows may be left out before sorting as well as after it. -/
theorem filter_mergeSort (keep : α → Bool) (xs : List α) :
    (xs.mergeSort fun a b => (cmp a b).isLE).filter keep =
      (xs.filter keep).mergeSort fun a b => (cmp a b).isLE := by
  refine eq_of_sorted_perm (.filter _ (pairwise_mergeSort_isLE xs)) (pairwise_mergeSort_isLE _) ?_
  exact ((List.mergeSort_perm xs _).filter keep).trans (List.mergeSort_perm _ _).symm

end Sorting

theorem isLE_eq_bne_gt (o : Ordering) : (o != .gt) = o.isLE := by
  cases o <;> rfl

namespace Policy

/-- The comparison of rules by subject, then path, then method. -/
def Permission.cmp : Permission → Permission → Ordering :=
  compareLex (compareOn Permission.subject)
    (compareLex (compareOn Permission.path) (compareOn Permission.method))

/-- The comparison of memberships by user, then role. -/
def Membership.cmp : Membership → Membership → Ordering :=
  compareLex (compareOn Membership.user) (compareOn Membership.role)

instance : Std.TransCmp Permission.cmp :=
  inferInstanceAs (Std.TransCmp (compareLex _ (compareLex _ _)))

instance : Std.TransCmp Membership.cmp :=
  inferInstanceAs (Std.TransCmp (compareLex _ _))

instance : Std.LawfulEqCmp Permission.cmp where
  eq_of_compare := by
    rintro ⟨s, p, m⟩ ⟨s', p', m'⟩ h
    simp only [Permission.cmp, compareLex, compareOn, Ordering.then_eq_eq,
      Std.LawfulEqOrd.compare_eq_iff_eq] at h
    obtain ⟨rfl, rfl, rfl⟩ := h
    rfl

instance : Std.LawfulEqCmp Membership.cmp where
  eq_of_compare := by
    rintro ⟨u, r⟩ ⟨u', r'⟩ h
    simp only [Membership.cmp, compareLex, compareOn, Ordering.then_eq_eq,
      Std.LawfulEqOrd.compare_eq_iff_eq] at h
    obtain ⟨rfl, rfl⟩ := h
    rfl

theorem Permission.listedBefore_eq : listedBefore = fun a b => (cmp a b).isLE := by
  funext a b
  exact isLE_eq_bne_gt _

theorem Membership.listedBefore_eq : listedBefore = fun a b => (cmp a b).isLE := by
  funext a b
  exact isLE_eq_bne_gt _

end Policy

end AccessAdmin
