import AccessAdmin.Proofs.Changes.Columns

/-!
# Plans are carried out

A service replaces the rows of one owner by deletions, updates and insertions that it plans from the
old rows and the new ones. None of these changes is refused: what is updated was there, and what is
inserted was not.

* `Column.inserts_sure`, `Amendable.updates_sure`: a series of one kind.
* `Column.inserts_fresh`: the rows of a new owner.
* `Column.creates_sure`: the insertions of a plan.
* `Amendable.sync_sure`: a whole plan.
-/

namespace AccessAdmin.Store

open Tables

variable {α : Type} {t u : Tables} {id : String} {new : List α}

/-! ## Series of one kind -/

/-- Insertions of rows with different keys go through if none of the keys was there. -/
theorem Column.inserts_sure (c : Column α) {xs : List α} (hnodup : (xs.map c.place).Nodup)
    (hnew : ∀ x ∈ xs, c.place x ∉ (c.rows t).map c.place) :
    t.applyAll (xs.map c.insert) = .ok (c.put t (c.rows t ++ xs)) := by
  induction xs generalizing t with
  | nil =>
    rw [List.append_nil, c.put_rows]
    rfl
  | cons x xs ih =>
    obtain ⟨hx, hxs⟩ := List.forall_mem_cons.mp hnew
    obtain ⟨hfirst, hnodup⟩ := List.nodup_cons.mp hnodup
    have hlater : ∀ y ∈ xs, c.place y ∉ (c.rows (c.put t (c.rows t ++ [x]))).map c.place := by
      intro y hy hmem
      rw [c.rows_put, List.map_append, List.mem_append, List.map_cons, List.map_nil,
        List.mem_singleton] at hmem
      rcases hmem with hmem | heq
      · exact hxs y hy hmem
      · exact hfirst (heq ▸ List.mem_map_of_mem hy)
    have hrest := ih hnodup hlater
    rw [c.put_put, c.rows_put, List.append_assoc, List.singleton_append] at hrest
    exact applyAll_cons.mpr ⟨_, (c.apply_insert x).mpr ⟨hx, rfl⟩, hrest⟩

/-- Rows with different keys go in behind the others if none of these has their owner. -/
theorem Column.inserts_fresh (c : Column α) (hnew : ∀ x ∈ new, c.owner x = id)
    (hnodup : (new.map c.key).Nodup) (hfresh : ∀ r ∈ c.rows t, c.owner r ≠ id) :
    t.applyAll (new.map c.insert) = .ok (c.put t (c.rows t ++ new)) := by
  have hdistinct : (new.map c.place).Nodup := by
    refine List.Nodup.of_map Prod.snd ?_
    rwa [List.map_map]
  refine c.inserts_sure hdistinct fun x hx hmem => ?_
  obtain ⟨r, hr, hsame⟩ := List.mem_map.mp hmem
  exact hfresh r hr ((Prod.mk.inj hsame).1.trans (hnew x hx))

/-- Updates of rows that are there go through. -/
theorem Amendable.updates_sure (c : Amendable α) {us : List α}
    (hus : ∀ u ∈ us, c.place u ∈ (c.rows t).map c.place) :
    t.applyAll (us.map c.update) = .ok (c.put t (renewAll c.place (c.rows t) us)) := by
  induction us generalizing t with
  | nil => exact congrArg Except.ok (c.put_rows t).symm
  | cons u us ih =>
    obtain ⟨hu, hus⟩ := List.forall_mem_cons.mp hus
    have hfirst : t.apply (c.update u) = .ok (c.put t (renew c.place (c.rows t) u)) :=
      (c.apply_update u).mpr ⟨hu, rfl⟩
    have hkeys : (c.rows (c.put t (renew c.place (c.rows t) u))).map c.place =
        (c.rows t).map c.place := by
      rw [c.rows_put, map_renew]
    rw [← hkeys] at hus
    have hrest := ih hus
    rw [c.put_put, c.rows_put] at hrest
    exact applyAll_cons.mpr ⟨_, hfirst, hrest⟩

/-! ## Whole plans -/

/-- A row that a plan updates is not one of those that it deletes. -/
theorem Column.update_kept (c : Column α) (hnew : ∀ x ∈ new, c.owner x = id) {x : α}
    (hx : x ∈ (c.plan t id new).update) : c.place x ∈ (c.kept t id new).map c.place := by
  rw [plan, ask_ofOwner] at hx
  obtain ⟨hxnew, hold⟩ := List.mem_filter.mp hx
  obtain ⟨r, hr, hkey⟩ := List.mem_map.mp (List.contains_iff_mem.mp hold)
  obtain ⟨hr, howner⟩ := List.mem_filter.mp hr
  have hsame : c.place r = c.place x :=
    Prod.ext ((beq_iff_eq.mp howner).trans (hnew x hxnew).symm) hkey
  rw [← hsame]
  refine List.mem_map_of_mem (List.mem_filter.mpr ⟨hr, ?_⟩)
  rw [howner, Bool.true_and, Bool.not_not, List.contains_iff_mem, hkey]
  exact List.mem_map_of_mem hxnew

/-- A row that a plan inserts has a key that its owner did not have. -/
theorem Column.create_absent (c : Column α) (hnew : ∀ x ∈ new, c.owner x = id) {x : α}
    (hx : x ∈ (c.plan t id new).create) : c.place x ∉ (c.rows t).map c.place := by
  intro hmem
  rw [create_eq] at hx
  obtain ⟨hxnew, hnone⟩ := List.mem_filter.mp hx
  obtain ⟨r, hr, hsame⟩ := List.mem_map.mp hmem
  obtain ⟨howner, hkey⟩ := Prod.mk.inj hsame
  have hown : r ∈ (c.rows t).filter (c.owner · == id) :=
    List.mem_filter.mpr ⟨hr, beq_iff_eq.mpr (howner.trans (hnew x hxnew))⟩
  rw [Bool.not_eq_true', List.contains_eq_mem, decide_eq_false_iff_not] at hnone
  exact hnone (hkey ▸ List.mem_map_of_mem hown)

/-- The insertions of a plan go through, as long as no rows have come in. -/
theorem Column.creates_sure (c : Column α)
    (hkeys : (c.rows u).map c.place ⊆ (c.rows t).map c.place)
    (hnew : ∀ x ∈ new, c.owner x = id) (hnodup : (new.map c.key).Nodup) :
    u.applyAll ((c.plan t id new).create.map c.insert) =
      .ok (c.put u (c.rows u ++ (c.plan t id new).create)) := by
  have hdistinct : ((c.plan t id new).create.map c.place).Nodup := by
    refine List.Nodup.of_map Prod.snd ?_
    rw [List.map_map]
    exact hnodup.sublist (List.filter_sublist.map c.key)
  exact c.inserts_sure hdistinct fun x hx hmem => c.create_absent hnew hx (hkeys hmem)

/-- The changes of a plan go through, and replace the rows of the owner. -/
theorem Amendable.sync_sure (c : Amendable α) (t : Tables) (hnew : ∀ x ∈ new, c.owner x = id)
    (hnodup : (new.map c.key).Nodup) :
    ∃ t₁ t₂ rows,
      t.applyAll ((c.plan t id new).delete.map fun x => c.delete id (c.key x)) = .ok t₁ ∧
      t₁.applyAll ((c.plan t id new).update.map c.update) = .ok t₂ ∧
      t₂.applyAll ((c.plan t id new).create.map c.insert) = .ok (c.put t rows) ∧
      Replaced c.owner c.key id new (c.rows t) rows := by
  have h₁ := c.deletes_plan t id new
  have hkept : ∀ x ∈ (c.plan t id new).update,
      c.place x ∈ (c.rows (c.put t (c.kept t id new))).map c.place := fun x hx => by
    rw [c.rows_put]
    exact c.update_kept hnew hx
  have h₂ := c.updates_sure hkept
  rw [c.rows_put, c.put_put] at h₂
  have hkeys : (c.rows (c.put t (renewAll c.place (c.kept t id new)
      (c.plan t id new).update))).map c.place ⊆ (c.rows t).map c.place := by
    rw [c.rows_put, map_renewAll]
    exact List.map_subset _ (List.filter_subset_self _)
  have h₃ := c.creates_sure hkeys hnew hnodup
  obtain ⟨rows, hrows, hreplaced⟩ := c.sync hnew hnodup h₁ h₂ h₃
  exact ⟨_, _, rows, h₁, h₂, hrows ▸ h₃, hreplaced⟩

end AccessAdmin.Store
