import Mathlib.Data.List.Nodup
import AccessAdmin.Proofs.Running.Desk

/-!
# Single changes

When a single change is made, and what it makes. A table of menus, roles or users has its rows by
their ids, and the row with an id is amended; a table of what these own has its rows in a list, and
the first row with a key is amended.

* `find_row` and its like: looking up a row by its id.
* `amend_eq_ok`, `amendFirst_eq_ok`, `insertNew_eq_ok`: when rows are amended, or one is inserted.
* `mem_modify_first`, `map_modify_first`, `filter_modify_first`: the rows when the first one that is
  hit is amended.
* `map_amend`, `filter_amend` and their like: what these leave as it was.
* `createRole_eq_ok` and its like: when menus, roles and users are created and updated.
-/

namespace AccessAdmin.Store.Tables

theorem applyAll_cons {t t' : Tables} {w : Write} {ws : List Write} :
    t.applyAll (w :: ws) = .ok t' ↔ ∃ t₁, t.apply w = .ok t₁ ∧ t₁.applyAll ws = .ok t' := by
  rw [applyAll]
  cases t.apply w with
  | ok t₁ => simp only [Except.ok.injEq, exists_eq_left']
  | error e => simp only [reduceCtorEq, false_and, exists_false]

variable {α κ : Type} {t t' : Tables}

/-! ## Rows -/

theorem find_row {rows : List α} {idOf : α → String} {id : String} {x : α}
    (h : rows.find? (idOf · == id) = some x) : x ∈ rows ∧ idOf x = id :=
  ⟨List.mem_of_find?_eq_some h, beq_iff_eq.1 (List.find?_some (p := (idOf · == id)) h)⟩

theorem find_row_eq_none {rows : List α} {idOf : α → String} {id : String} :
    rows.find? (idOf · == id) = none ↔ ∀ x ∈ rows, idOf x ≠ id := by
  simp only [List.find?_eq_none, beq_iff_eq, ne_eq]

theorem any_row {rows : List α} {idOf : α → String} {id : String} :
    rows.any (idOf · == id) = true ↔ ∃ x ∈ rows, idOf x = id := by
  simp only [List.any_eq_true, beq_iff_eq]

/-- With the ids distinct, a row is found by its id. -/
theorem find_row_of_mem {rows : List α} {idOf : α → String} {x : α}
    (hids : (rows.map idOf).Nodup) (hx : x ∈ rows) : rows.find? (idOf · == idOf x) = some x := by
  cases hfind : rows.find? (idOf · == idOf x) with
  | none => exact absurd rfl (find_row_eq_none.mp hfind x hx)
  | some y =>
    obtain ⟨hy, hid⟩ := find_row hfind
    rw [List.inj_on_of_nodup_map hids hy hx hid]

/-- Looking up a row that may have been amended, but not in its id. -/
theorem find_amended {rows : List α} (idOf : α → String) (f : α → α)
    (hid : ∀ x, idOf (f x) = idOf x) (id : String) :
    (rows.map fun x => if idOf x == id then f x else x).find? (idOf · == id) =
      (rows.find? (idOf · == id)).map f := by
  have hsame : (fun x => idOf x == id) ∘ (fun x => if idOf x == id then f x else x) =
      fun x => idOf x == id := by
    funext x
    rw [Function.comp_apply]
    split
    · rw [hid]
    · rfl
  rw [List.find?_map, hsame]
  cases hx : rows.find? (idOf · == id) with
  | none => rfl
  | some x => rw [Option.map_some, Option.map_some, if_pos (List.find?_some (p := (idOf · == id)) hx)]

/-! ## The first row that is hit -/

section First

variable {rows : List α} {hit p : α → Bool} {f : α → α}

theorem modify_first_cons (x : α) (rows : List α) :
    (x :: rows).modify ((x :: rows).findIdx hit) f =
      if hit x then f x :: rows else x :: rows.modify (rows.findIdx hit) f := by
  rw [List.findIdx_cons]
  cases hit x <;> rfl

theorem mem_modify_first {y : α} (h : y ∈ rows.modify (rows.findIdx hit) f) :
    y ∈ rows ∨ ∃ x ∈ rows, hit x = true ∧ f x = y := by
  induction rows with
  | nil => exact .inl h
  | cons x rows ih =>
    rw [modify_first_cons] at h
    split at h
    · rename_i hx
      rcases List.mem_cons.mp h with rfl | h
      · exact .inr ⟨x, .head _, hx, rfl⟩
      · exact .inl (.tail _ h)
    · rcases List.mem_cons.mp h with rfl | h
      · exact .inl (.head _)
      · exact (ih h).imp (.tail _) fun ⟨z, hz, hy⟩ => ⟨z, .tail _ hz, hy⟩

theorem modify_first_congr {g : α → α} (h : ∀ x, hit x = true → f x = g x) :
    rows.modify (rows.findIdx hit) f = rows.modify (rows.findIdx hit) g := by
  induction rows with
  | nil => rfl
  | cons x rows ih =>
    rw [modify_first_cons, modify_first_cons, ih]
    split
    · rename_i hx
      rw [h x hx]
    · rfl

/-- Amending the first row leaves what is not amended in any row. -/
theorem map_modify_first {β : Type} {part : α → β}
    (hf : ∀ x, hit x = true → part (f x) = part x) :
    (rows.modify (rows.findIdx hit) f).map part = rows.map part := by
  induction rows with
  | nil => rfl
  | cons x rows ih =>
    rw [modify_first_cons]
    split
    · rename_i hx
      rw [List.map_cons, List.map_cons, hf x hx]
    · rw [List.map_cons, List.map_cons, ih]

/-- Amending a first row that is left out anyway. -/
theorem filter_modify_first (hf : ∀ x, hit x = true → p x = false ∧ p (f x) = false) :
    (rows.modify (rows.findIdx hit) f).filter p = rows.filter p := by
  induction rows with
  | nil => rfl
  | cons x rows ih =>
    rw [modify_first_cons]
    split
    · rename_i hx
      rw [List.filter_cons, List.filter_cons, (hf x hx).1, (hf x hx).2]
      rfl
    · rw [List.filter_cons, List.filter_cons, ih]

end First

/-! ## Amended and inserted rows -/

theorem bind_pure_eq_ok {ε α β : Type} {x : Except ε α} {f : α → β} {b : β} :
    (do return f (← x)) = Except.ok b ↔ ∃ a, x = .ok a ∧ f a = b := by
  cases x with
  | ok a =>
    show Except.ok (f a) = Except.ok b ↔ _
    simp only [Except.ok.injEq, exists_eq_left']
  | error e =>
    show Except.error e = Except.ok b ↔ _
    simp only [reduceCtorEq, false_and, exists_false]

theorem bind_pure_eq_error {ε α β : Type} {x : Except ε α} {f : α → β} {e : ε} :
    (do return f (← x)) = Except.error e ↔ x = .error e := by
  cases x with
  | ok a =>
    show Except.ok (f a) = Except.error e ↔ _
    simp only [reduceCtorEq]
  | error e' =>
    show Except.error e' = Except.error e ↔ _
    simp only [Except.error.injEq]

/-- A change with a check before it, when it is made. -/
theorem refuse_eq_ok {ε : Type} {c : Prop} [Decidable c] {e : ε} {x : Except ε α} {a : α} :
    (if c then .error e else x) = .ok a ↔ ¬c ∧ x = .ok a := by
  split
  · rename_i h
    simp only [reduceCtorEq, h, not_true_eq_false, false_and]
  · rename_i h
    simp only [h, not_false_eq_true, true_and]

/-- Such a change, when it is refused. -/
theorem refuse_eq_error {ε : Type} {c : Prop} [Decidable c] {e e' : ε} {x : Except ε α} :
    (if c then .error e else x) = .error e' ↔ c ∧ e = e' ∨ ¬c ∧ x = .error e' := by
  split
  · rename_i h
    simp only [Except.error.injEq, h, true_and, not_true_eq_false, false_and, or_false]
  · rename_i h
    simp only [h, false_and, not_false_eq_true, true_and, false_or]

/-- A change that is made only where a check passes. -/
theorem admit_eq_ok {ε : Type} {c : Prop} [Decidable c] {e : ε} {x y : α} :
    (if c then .ok x else .error e) = Except.ok y ↔ c ∧ y = x := by
  split
  · rename_i h
    simp only [Except.ok.injEq, h, true_and, eq_comm]
  · rename_i h
    simp only [reduceCtorEq, h, false_and]

/-- Such a change, when it is refused. -/
theorem admit_eq_error {ε : Type} {c : Prop} [Decidable c] {e e' : ε} {x : α} :
    (if c then .ok x else .error e) = Except.error e' ↔ ¬c ∧ e' = e := by
  split
  · rename_i h
    simp only [reduceCtorEq, h, not_true_eq_false, false_and]
  · rename_i h
    simp only [Except.error.injEq, h, not_false_eq_true, true_and, eq_comm]

theorem amend_eq_ok {rows rows' : List α} {hit : α → Bool} {f : α → α} {what : String} :
    amend rows hit f what = .ok rows' ↔
      rows.any hit = true ∧ rows' = rows.map fun x => if hit x then f x else x :=
  admit_eq_ok

theorem amend_eq_error {rows : List α} {hit : α → Bool} {f : α → α} {what : String}
    {e : StoreError} :
    amend rows hit f what = .error e ↔ rows.any hit = false ∧ e = .notFound what := by
  rw [← Bool.not_eq_true]
  exact admit_eq_error

theorem amendFirst_eq_ok {rows rows' : List α} {hit : α → Bool} {f : α → α} {what : String} :
    amendFirst rows hit f what = .ok rows' ↔
      rows.any hit = true ∧ rows' = rows.modify (rows.findIdx hit) f :=
  admit_eq_ok

theorem amendFirst_eq_error {rows : List α} {hit : α → Bool} {f : α → α} {what : String}
    {e : StoreError} :
    amendFirst rows hit f what = .error e ↔ rows.any hit = false ∧ e = .notFound what := by
  rw [← Bool.not_eq_true]
  exact admit_eq_error

theorem insertNew_eq_ok {rows rows' : List α} {same : α → Bool} {row : α} {what : String} :
    insertNew rows same row what = .ok rows' ↔ rows.any same = false ∧ rows' = rows ++ [row] := by
  unfold insertNew
  split
  · rename_i h
    simp only [reduceCtorEq, h, Bool.true_eq_false, false_and]
  · rename_i h
    simp only [Except.ok.injEq, h, true_and, eq_comm]

theorem insertNew_eq_error {rows : List α} {same : α → Bool} {row : α} {what : String}
    {e : StoreError} :
    insertNew rows same row what = .error e ↔ rows.any same = true ∧ e = .conflict what := by
  unfold insertNew
  rw [refuse_eq_error]
  simp only [reduceCtorEq, and_false, or_false, eq_comm]

section Parts

variable {rows rows' : List α} {x : α} {p hit : α → Bool} {f : α → α} {what : String}

/-- Amending leaves what is not amended in any row. -/
theorem map_amend {β : Type} {part : α → β} (h : amend rows hit f what = .ok rows')
    (hf : ∀ x, part (f x) = part x) : rows'.map part = rows.map part := by
  obtain ⟨-, rfl⟩ := amend_eq_ok.mp h
  rw [List.map_map]
  refine List.map_congr_left fun x _ => ?_
  rw [Function.comp_apply]
  split
  · exact hf x
  · rfl

/-- Amending rows that are left out anyway. -/
theorem filter_amend (h : amend rows hit f what = .ok rows')
    (hf : ∀ x, hit x = true → p x = false ∧ p (f x) = false) :
    rows'.filter p = rows.filter p := by
  obtain ⟨-, rfl⟩ := amend_eq_ok.mp h
  clear h
  induction rows with
  | nil => rfl
  | cons x rows ih =>
    rw [List.map_cons, List.filter_cons, List.filter_cons, ih]
    by_cases hx : hit x = true
    · obtain ⟨hout, hout'⟩ := hf x hx
      rw [if_pos hx, hout, hout']
      rfl
    · rw [if_neg hx]

/-- Dropping rows that are left out anyway. -/
theorem filter_dropped (h : ∀ x, hit x = true → p x = false) :
    (rows.filter (!hit ·)).filter p = rows.filter p := by
  rw [List.filter_filter]
  refine List.filter_congr fun x _ => ?_
  cases hx : hit x with
  | true => rw [h x hx, Bool.false_and]
  | false => rw [Bool.not_false, Bool.and_true]

end Parts

/-! ## Menus, roles and users -/

theorem not_any_other {rows : List α} {idOf name : α → String} {id n : String} :
    (¬(rows.any fun r => name r == n && idOf r != id) = true) ↔
      ∀ r ∈ rows, idOf r ≠ id → name r ≠ n := by
  simp only [List.any_eq_true, Bool.and_eq_true, beq_iff_eq, bne_iff_ne, not_exists, not_and,
    ne_eq]
  exact forall₂_congr fun r _ => forall_comm

theorem createMenu_eq_ok {m : Menu} : t.createMenu m = .ok t' ↔
    (∀ x ∈ t.menus, x.id ≠ m.id) ∧
      t' = { t with
        lastRowId := t.lastRowId + 1
        created := { t.created with menus := t.created.menus + 1 }
        menus := t.menus ++ [{ m.bare with rowId := t.lastRowId + 1 }] } := by
  unfold createMenu
  rw [refuse_eq_ok, any_row]
  simp only [not_exists, not_and, Except.ok.injEq, ne_eq, eq_comm]

theorem createRole_eq_ok {r : Role} : t.createRole r = .ok t' ↔
    (∀ x ∈ t.roles, x.id ≠ r.id) ∧ (∀ x ∈ t.roles, x.name ≠ r.name) ∧
      t' = { t with
        lastRowId := t.lastRowId + 1
        created := { t.created with roles := t.created.roles + 1 }
        roles := t.roles ++ [{ r.bare with rowId := t.lastRowId + 1 }] } := by
  unfold createRole
  rw [refuse_eq_ok, refuse_eq_ok, any_row, any_row]
  simp only [not_exists, not_and, Except.ok.injEq, ne_eq, eq_comm]

theorem updateRole_eq_ok {r : Role} : t.updateRole r = .ok t' ↔
    (∀ x ∈ t.roles, x.id ≠ r.id → x.name ≠ r.name) ∧
      ∃ rows, amend t.roles (·.id == r.id) (fun row =>
        { row with
          name := r.name
          sequence := r.sequence
          memo := r.memo
          updatedAt := r.updatedAt })
        s!"role {r.id}" = .ok rows ∧ { t with roles := rows } = t' := by
  unfold updateRole
  rw [refuse_eq_ok, not_any_other, bind_pure_eq_ok]

theorem createUser_eq_ok {u : User} : t.createUser u = .ok t' ↔
    (∀ x ∈ t.users, x.id ≠ u.id) ∧ (∀ x ∈ t.users, x.username ≠ u.username) ∧
      t' = { t with
        lastRowId := t.lastRowId + 1
        created := { t.created with users := t.created.users + 1 }
        users := t.users ++ [{ u.bare with rowId := t.lastRowId + 1 }] } := by
  unfold createUser
  rw [refuse_eq_ok, refuse_eq_ok, any_row, any_row]
  simp only [not_exists, not_and, Except.ok.injEq, ne_eq, eq_comm]

theorem updateUser_eq_ok {u : User} : t.updateUser u = .ok t' ↔
    (∀ x ∈ t.users, x.id ≠ u.id → x.username ≠ u.username) ∧
      ∃ rows, amend t.users (·.id == u.id) (fun row =>
        { row with
          username := u.username
          realName := u.realName
          email := u.email
          phone := u.phone
          updatedAt := u.updatedAt })
        s!"user {u.id}" = .ok rows ∧ { t with users := rows } = t' := by
  unfold updateUser amendUser
  rw [refuse_eq_ok, not_any_other, bind_pure_eq_ok]

end AccessAdmin.Store.Tables
