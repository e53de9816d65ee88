import AccessAdmin.Proofs.Changes.Sound

/-!
# What lasts

Whatever every single change of the tables keeps holds of all tables that sequences of commands
lead to, whether they are served, refused or disturbed. No assignment is stored twice, for one.

* `Store.Tables.Lasting`: properties that single changes keep.
* `Reached.lasting`: they hold of all reached tables.
* `Reached.assignments_nodup`: the assignments differ from each other.
-/

namespace AccessAdmin

/-- A property of tables that every change keeps. -/
def Store.Tables.Lasting (P : Tables → Prop) : Prop :=
  ∀ t w t', t.apply w = .ok t' → P t → P t'

section Lasting

variable {α β : Type} {env : Surroundings} {s : Store.SessionId} {P : Store.Tables → Prop}
  {d d' : Desk}

theorem Desk.Steps.lasting (hP : Store.Tables.Lasting P) {e : Effect} {r : e.Reply}
    (h : d.Steps env s e r d') (hd : P d.tables) : P d'.tables := by
  cases e with
  | call s' c =>
    cases c with
    | read q =>
      obtain ⟨-, -, rfl⟩ := h
      exact hd
    | write w =>
      obtain ⟨-, ⟨t, ht, -, rfl⟩ | ⟨_, -, -, rfl⟩⟩ := h
      · exact hP _ w t ht hd
      · exact hd
    | begin | commit | rollback => exact h.elim
  | policy c =>
    obtain ⟨-, rfl⟩ := h
    exact hd
  | freshId s' kind =>
    obtain ⟨-, -, rfl⟩ := h
    exact hd
  | readClock | freshSalt | count _ =>
    obtain rfl := h
    exact hd
  | openSession | closeSession _ | inTransaction _ | checkHealth | wait _ | elapsed | note _ =>
    exact h.elim

/-- Work on a desk changes the tables one change at a time. -/
theorem Program.Ends.lasting (hP : Store.Tables.Lasting P) {p : Program α} {a : α}
    (h : p.Ends env s d a d') (hd : P d.tables) : P d'.tables := by
  induction p generalizing d with
  | done b =>
    obtain ⟨-, rfl⟩ := h
    exact hd
  | ask e k ih =>
    obtain ⟨r, d₁, hs, hk⟩ := h
    exact ih r hk (hs.lasting hP hd)
  | askBy l e k _ => exact h.elim

theorem Service.Committed.lasting (hP : Store.Tables.Lasting P) {body : Session → Service α}
    {after : Session → α → Service β} {r : Except ServiceError β}
    (h : Committed env body after d r d') (hd : P d.tables) : P d'.tables := by
  obtain ⟨s, a, hbody, -⟩ := h
  have hmid : P (⟨d'.tables, d.engine⟩ : Desk).tables := hbody.lasting hP hd
  exact hmid

theorem Mutation.Commits.lasting (hP : Store.Tables.Lasting P) {m : Mutation} {users : UserPolicy}
    {actor : String} {r : Except ServiceError m.Result} (h : m.Commits env users actor d r d')
    (hd : P d.tables) : P d'.tables := by
  cases m with
  | deleteMenu _ | seedMenus _ | deleteRole _ | deleteUser _ | updateStatus _ _ =>
    exact Service.Committed.lasting hP h hd
  | createMenu _ | createRole _ | updateRole _ _ => exact Service.Committed.lasting hP h.2 hd
  | updateMenu _ _ => exact Service.Committed.lasting hP h.2.2 hd
  | createUser _ | updateUser _ _ =>
    obtain ⟨-, _, h⟩ := h
    exact Service.Committed.lasting hP h hd
  | updatePassword _ _ | changeOwnPassword _ _ _ =>
    obtain ⟨_, h⟩ := h
    exact Service.Committed.lasting hP h hd

/-- What the empty tables meet and every change keeps holds after every sequence of commands. -/
theorem Reached.lasting (hP : Store.Tables.Lasting P) (h₀ : P {}) {admits : Command → Prop}
    {used : List String} {w : World MemoryStore} (h : Reached admits used w) : P w.tables := by
  induction h with
  | start hst _ =>
    rw [World.tables, hst]
    exact h₀
  | step q hreached _ _ ih =>
    obtain ⟨rc, vc, r, w', -, hr, -, -, hout⟩ := q.run_outcome hreached.idle
    rw [hr]
    obtain htables | ⟨hcommits, htables⟩ := hout.tables
    · rw [htables]
      exact ih
    · rw [htables]
      exact hcommits.lasting hP ih

end Lasting

/-! ## Assignments -/

namespace Store.Tables

variable {t t' : Tables}

/-- A change takes assignments away, or adds one that is not stored yet. -/
theorem userRoles_apply {w : Write} (h : t.apply w = .ok t') :
    t'.userRoles.Sublist t.userRoles ∨
      ∃ a, a ∉ t.userRoles ∧ t'.userRoles = t.userRoles ++ [a] := by
  cases w with
  | createUserRole a =>
    obtain ⟨rows, hrows, rfl⟩ := bind_pure_eq_ok.1 h
    obtain ⟨hnew, rfl⟩ := insertNew_eq_ok.1 hrows
    exact .inr ⟨a, fun ha => List.any_eq_false.1 hnew a ha (beq_self_eq_true a), rfl⟩
  | deleteUserRole _ _ | deleteUserRoles _ | deleteRoleUsers _ =>
    obtain rfl := Except.ok.inj h
    exact .inl List.filter_sublist
  | createMenu m =>
    obtain ⟨-, rfl⟩ := createMenu_eq_ok.1 h
    exact .inl (.refl _)
  | createRole r =>
    obtain ⟨-, -, rfl⟩ := createRole_eq_ok.1 h
    exact .inl (.refl _)
  | createUser u =>
    obtain ⟨-, -, rfl⟩ := createUser_eq_ok.1 h
    exact .inl (.refl _)
  | updateRole r =>
    obtain ⟨-, _, -, rfl⟩ := updateRole_eq_ok.1 h
    exact .inl (.refl _)
  | updateUser u =>
    obtain ⟨-, _, -, rfl⟩ := updateUser_eq_ok.1 h
    exact .inl (.refl _)
  | updateUserStatus _ _ | updateUserPassword _ _ =>
    obtain ⟨-, rfl⟩ := Users.amendUser_eq h
    exact .inl (.refl _)
  | updateMenu _ | updateMenuParentPath _ _ | createMenuAction _ | updateMenuAction _
  | createMenuResource _ | updateMenuResource _ | createRoleMenu _ | updateRoleMenu _ =>
    obtain ⟨_, -, rfl⟩ := bind_pure_eq_ok.1 h
    exact .inl (.refl _)
  | deleteMenu _ | deleteMenuAction _ _ | deleteMenuActions _ | deleteMenuResource _ _
  | deleteMenuResources _ | deleteRole _ | deleteRoleMenu _ _ | deleteRoleMenus _ | deleteUser _ =>
    obtain rfl := Except.ok.inj h
    exact .inl (.refl _)

theorem lasting_assignments : Lasting fun t => t.userRoles.Nodup := by
  intro t w t' h hnodup
  obtain hsub | ⟨a, hnew, heq⟩ := userRoles_apply h
  · exact hnodup.sublist hsub
  · rw [heq, ← List.concat_eq_append]
    exact List.Nodup.concat hnew hnodup

end Store.Tables

/-- No assignment is stored twice. -/
theorem Reached.assignments_nodup {admits : Command → Prop} {used : List String}
    {w : World MemoryStore} (h : Reached admits used w) : w.tables.userRoles.Nodup :=
  h.lasting Store.Tables.lasting_assignments List.nodup_nil

end AccessAdmin
