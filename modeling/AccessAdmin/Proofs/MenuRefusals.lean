import AccessAdmin.Proofs.Changes.Writes
import AccessAdmin.Proofs.Outcomes.Menus
import AccessAdmin.Proofs.Projecting.Agreement
import AccessAdmin.Proofs.Subtrees

/-!
# Which menu updates and deletions are refused

In the worlds that undisturbed commands lead to, an update or a deletion of a menu is refused for
what the caller asks for, and for nothing else. A new parent is found to be below the menu by its
path, and a menu is found to have others below it by their parents; in a tree both tell the truth.

* `Menus.Verdict`: a refusal that tells an invalid request from one that misses a menu.
* `Menus.verdict_update`, `Menus.verdict_remove`: the refusals of updates and deletions do.
* `Reached.menu_update`, `Reached.menu_delete`: how every update and every deletion is answered.
-/

namespace AccessAdmin

open Service

/-- A description of a menu as it may be: it has a name, the codes can be stored, and no action and
no resource comes twice. -/
structure MenuForm.Valid (f : MenuForm) : Prop where
  named : Text.isAllBlank f.name = false
  actions : ∀ a ∈ f.actions, Code.isStorable a.code = true
  resources : ∀ r ∈ f.resources, Code.isStorable r.code = true
  distinctActions : (f.actions.map ActionInput.code).Nodup
  distinctResources : (f.resources.map ResourceInput.code).Nodup

namespace Menus

theorem firstUnstorable_eq_none {codes : List String} :
    firstUnstorable codes = none ↔ ∀ c ∈ codes, Code.isStorable c = true := by
  simp only [firstUnstorable, List.find?_eq_none, Bool.not_eq_true', Bool.not_eq_false]

/-- The checks find a fault in a description exactly if it is not valid. -/
theorem fault?_eq_none_iff {f : MenuForm} : fault? f = none ↔ f.Valid := by
  constructor
  · intro h
    obtain ⟨hactions, hresources⟩ := storable_of_fault h
    obtain ⟨hdistinct, hdistinct'⟩ := fault?_eq_none h
    refine ⟨?_, hactions, hresources, hdistinct, hdistinct'⟩
    unfold fault? at h
    by_cases hblank : Text.isAllBlank f.name = true
    · rw [if_pos hblank] at h
      cases h
    · exact Bool.eq_false_iff.mpr hblank
  · intro h
    have hactions : firstUnstorable (f.actions.map ActionInput.code) = none :=
      firstUnstorable_eq_none.mpr (List.forall_mem_map.mpr h.actions)
    have hresources : firstUnstorable (f.resources.map ResourceInput.code) = none :=
      firstUnstorable_eq_none.mpr (List.forall_mem_map.mpr h.resources)
    simp only [fault?, h.named, hactions, hresources, firstDuplicate_eq_none.mpr h.distinctActions,
      firstDuplicate_eq_none.mpr h.distinctResources, Bool.false_eq_true, ↓reduceIte]

/-! ## Verdicts -/

/-- A refusal, or none, that tells an invalid request from one that misses a row. -/
inductive Verdict (invalid misses : Prop) : Option ServiceError → Prop where
  | invalid {text : String} : invalid → Verdict invalid misses (some (.validation text))
  | misses {text : String} : ¬invalid → misses → Verdict invalid misses (some (.notFound text))
  | accepted : ¬invalid → ¬misses → Verdict invalid misses none

/-- Where a request is answered by the refusal and then changes nothing, or else with success, the
answer tells the same. -/
theorem Verdict.answer {β : Type} {invalid misses unchanged : Prop} {refusal : Option ServiceError}
    {r : Except ServiceError β} (h : Verdict invalid misses refusal)
    (hrefused : ∀ e, refusal = some e → r = .error e ∧ unchanged)
    (haccepted : refusal = none → ∃ b, r = .ok b) :
    ((∃ text, r = .error (.validation text)) ↔ invalid) ∧
    ((∃ text, r = .error (.notFound text)) ↔ ¬invalid ∧ misses) ∧
    ((∃ b, r = .ok b) ↔ ¬invalid ∧ ¬misses) ∧
    (∀ e, r ≠ .error (.storage e)) ∧ ∀ e, r = .error e → unchanged := by
  cases h with
  | invalid hinvalid =>
    obtain ⟨rfl, hunchanged⟩ := hrefused _ rfl
    simp [hinvalid, hunchanged]
  | misses hinvalid hmisses =>
    obtain ⟨rfl, hunchanged⟩ := hrefused _ rfl
    simp [hinvalid, hmisses, hunchanged]
  | accepted hinvalid hmisses =>
    obtain ⟨b, rfl⟩ := haccepted rfl
    simp [hinvalid, hmisses]

/-! ## Updates -/

/-- What makes an update of a menu invalid: the menu would be its own parent, the description is not
valid, or the new parent is below the menu. -/
def Invalid (t : Store.Tables) (id : String) (input : MenuInput) : Prop :=
  input.parentId = id ∨ ¬input.toMenuForm.Valid ∨
    ∃ old ∈ t.menus, old.id = id ∧ input.parentId ≠ old.parentId ∧
      ∃ p ∈ t.menus, p.id = input.parentId ∧ t.Below p old

/-- What an update of a menu may miss: the menu, or its new parent. -/
def Misses (t : Store.Tables) (id : String) (input : MenuInput) : Prop :=
  (∀ m ∈ t.menus, m.id ≠ id) ∨
    input.parentId ≠ "" ∧ (∃ old ∈ t.menus, old.id = id ∧ input.parentId ≠ old.parentId) ∧
      ∀ m ∈ t.menus, m.id ≠ input.parentId

section Updates

variable {t : Store.Tables} {id parentId : String} {input : MenuInput} {old : Menu}
  {path : AncestorPath} {e : ServiceError}

theorem pathFor_eq_ok (h : pathFor t parentId = .ok path) : Place t parentId path := by
  unfold pathFor at h
  split at h
  · rename_i hroot
    exact .inl ⟨String.isEmpty_iff.mp hroot, (Except.ok.inj h).symm⟩
  · rename_i hne
    split at h
    · rename_i p hfound
      obtain ⟨hp, hid⟩ := Store.Tables.find_row hfound
      exact .inr ⟨fun he => hne (String.isEmpty_iff.mpr he), p, hp, hid, (Except.ok.inj h).symm⟩
    · cases h

theorem pathFor_eq_error (h : pathFor t parentId = .error e) :
    parentId ≠ "" ∧ (∀ m ∈ t.menus, m.id ≠ parentId) ∧ ∃ text, e = .notFound text := by
  unfold pathFor at h
  split at h
  · cases h
  · rename_i hne
    split at h
    · cases h
    · rename_i hnone
      exact ⟨fun he => hne (String.isEmpty_iff.mpr he), Store.Tables.find_row_eq_none.mp hnone,
        _, (Except.error.inj h).symm⟩

/-- The path under another menu begins with the path of a menu's children exactly if that other menu
is below the menu. -/
theorem Place.startsWith_iff (hplace : Place t parentId path) (hforest : t.Forest)
    (hnodup : (t.menus.map Menu.id).Nodup) (hnamed : ∀ m ∈ t.menus, m.id ≠ "")
    (hold : old ∈ t.menus) (hne : parentId ≠ old.id) :
    path.startsWith old.childPath = true ↔ ∃ p ∈ t.menus, p.id = parentId ∧ t.Below p old := by
  obtain ⟨hempty, hroot⟩ | ⟨-, p, hp, hid, hpath⟩ := hplace
  · rw [hroot, Menu.childPath, AncestorPath.not_startsWith_child_root]
    refine iff_of_false Bool.false_ne_true ?_
    rintro ⟨p, hp, hid, -⟩
    exact hnamed p hp (hid.trans hempty)
  · have hbelow := hforest.startsWith_iff_climb hnodup hold hp
    have hnot : old.childPath ≠ p.parentPath.child p.id := fun he =>
      hne (hid.symm.trans (AncestorPath.child_id_inj he).symm)
    rw [hpath, Menu.childPath, AncestorPath.startsWith_child, or_iff_right hnot, hbelow]
    constructor
    · exact fun h => ⟨p, hp, hid, h⟩
    · rintro ⟨q, hq, hqid, h⟩
      obtain rfl := List.inj_on_of_nodup_map hnodup hq hp (hqid.trans hid.symm)
      exact h

/-- With a valid description only a new parent below the menu makes an update invalid. -/
theorem invalid_iff_of_stored (hnodup : (t.menus.map Menu.id).Nodup) (hold : old ∈ t.menus)
    (hid : old.id = id) (hown : input.parentId ≠ id) (hvalid : input.toMenuForm.Valid) :
    Invalid t id input ↔ input.parentId ≠ old.parentId ∧
      ∃ p ∈ t.menus, p.id = input.parentId ∧ t.Below p old := by
  constructor
  · rintro (h | h | ⟨m, hm, hmid, hmoves, hbelow⟩)
    · exact absurd h hown
    · exact absurd hvalid h
    · obtain rfl := List.inj_on_of_nodup_map hnodup hm hold (hmid.trans hid.symm)
      exact ⟨hmoves, hbelow⟩
  · rintro ⟨hmoves, hbelow⟩
    exact .inr (.inr ⟨old, hold, hid, hmoves, hbelow⟩)

/-- An update of a stored menu can only miss a new parent. -/
theorem misses_iff_of_stored (hnodup : (t.menus.map Menu.id).Nodup) (hold : old ∈ t.menus)
    (hid : old.id = id) : Misses t id input ↔ input.parentId ≠ "" ∧
      input.parentId ≠ old.parentId ∧ ∀ m ∈ t.menus, m.id ≠ input.parentId := by
  constructor
  · rintro (h | ⟨hne, ⟨m, hm, hmid, hmoves⟩, hnone⟩)
    · exact absurd hid (h old hold)
    · obtain rfl := List.inj_on_of_nodup_map hnodup hm hold (hmid.trans hid.symm)
      exact ⟨hne, hmoves, hnone⟩
  · rintro ⟨hne, hmoves, hnone⟩
    exact .inr ⟨hne, ⟨old, hold, hid, hmoves⟩, hnone⟩

/-- The refusals of the updates of a stored menu: the description is valid, and the menu would not
be its own parent. -/
theorem verdict_move (hforest : t.Forest) (hnodup : (t.menus.map Menu.id).Nodup)
    (hnamed : ∀ m ∈ t.menus, m.id ≠ "") (hold : old ∈ t.menus) (hid : old.id = id)
    (hown : input.parentId ≠ id) (hvalid : input.toMenuForm.Valid) :
    Verdict (Invalid t id input) (Misses t id input) (moveRefusal? t id old input.parentId) := by
  have hinvalid := invalid_iff_of_stored hnodup hold hid hown hvalid
  have hmisses : Misses t id input ↔ _ := misses_iff_of_stored hnodup hold hid
  unfold moveRefusal?
  by_cases hsame : input.parentId = old.parentId
  · rw [if_pos hsame]
    exact .accepted (fun h => (hinvalid.mp h).1 hsame) fun h => (hmisses.mp h).2.1 hsame
  · rw [if_neg hsame]
    cases hpath : pathFor t input.parentId with
    | error e =>
      obtain ⟨hne, hnone, text, rfl⟩ := pathFor_eq_error hpath
      refine .misses (fun h => ?_) (hmisses.mpr ⟨hne, hsame, hnone⟩)
      obtain ⟨-, p, hp, hpid, -⟩ := hinvalid.mp h
      exact hnone p hp hpid
    | ok path =>
      have hplace := pathFor_eq_ok hpath
      have hbelow := hplace.startsWith_iff hforest hnodup hnamed hold (hid ▸ hown)
      dsimp only
      by_cases hstart : path.startsWith old.childPath = true
      · rw [if_pos hstart]
        exact .invalid (hinvalid.mpr ⟨hsame, hbelow.mp hstart⟩)
      · rw [if_neg hstart]
        refine .accepted (fun h => hstart (hbelow.mpr (hinvalid.mp h).2)) fun h => ?_
        obtain ⟨hne, -, hnone⟩ := hmisses.mp h
        obtain ⟨hempty, -⟩ | ⟨-, p, hp, hpid, -⟩ := hplace
        · exact hne hempty
        · exact hnone p hp hpid

/-- The refusals of updates tell an invalid update from one that misses a menu. -/
theorem verdict_update (hforest : t.Forest) (hnodup : (t.menus.map Menu.id).Nodup)
    (hnamed : ∀ m ∈ t.menus, m.id ≠ "") (id : String) (input : MenuInput) :
    Verdict (Invalid t id input) (Misses t id input) (updateRefusal? t id input) := by
  unfold updateRefusal?
  by_cases hown : input.parentId = id
  · rw [if_pos hown]
    exact .invalid (.inl hown)
  · rw [if_neg hown]
    cases hf : fault? input.toMenuForm with
    | some text =>
      refine .invalid (.inr (.inl fun hvalid => ?_))
      rw [fault?_eq_none_iff.mpr hvalid] at hf
      cases hf
    | none =>
      have hvalid := fault?_eq_none_iff.mp hf
      dsimp only
      unfold storedRefusal?
      cases hfound : t.menus.find? (·.id == id) with
      | none =>
        have hnone := Store.Tables.find_row_eq_none.mp hfound
        refine .misses ?_ (.inl hnone)
        rintro (h | h | ⟨m, hm, hid, -⟩)
        · exact hown h
        · exact h hvalid
        · exact hnone m hm hid
      | some old =>
        obtain ⟨hold, hid⟩ := Store.Tables.find_row hfound
        exact verdict_move hforest hnodup hnamed hold hid hown hvalid

end Updates

/-! ## Deletions -/

/-- In a tree a menu has children exactly if it is on the path of some menu. By induction on the
length of the path: its last id is the parent's, and the rest is the parent's path. -/
theorem exists_child_iff_on_path {t : Store.Tables} {id : String} (hforest : t.Forest)
    (hne : id ≠ "") :
    (∃ m ∈ t.menus, m.parentId = id) ↔ ∃ m ∈ t.menus, id ∈ m.parentPath.ids := by
  constructor
  · rintro ⟨m, hm, hparent⟩
    obtain ⟨hempty, -⟩ | ⟨-, p, -, hid, hpath⟩ := hforest m hm
    · exact absurd (hparent.symm.trans hempty) hne
    · refine ⟨m, hm, ?_⟩
      rw [hpath, Menu.childPath, AncestorPath.child, hid, hparent]
      exact List.mem_append_right _ (List.mem_singleton_self id)
  · rintro ⟨m, hm, hmem⟩
    induction hdepth : m.parentPath.depth generalizing m with
    | zero =>
      rw [List.length_eq_zero_iff.mp hdepth] at hmem
      exact absurd hmem List.not_mem_nil
    | succ depth ih =>
      obtain ⟨-, hroot⟩ | ⟨-, p, hp, hid, hpath⟩ := hforest m hm
      · rw [hroot] at hdepth
        cases hdepth
      · rw [hpath, Menu.childPath, AncestorPath.depth_child, Nat.succ_inj] at hdepth
        rw [hpath] at hmem
        rcases List.mem_append.mp hmem with habove | hlast
        · exact ih p hp habove hdepth
        · exact ⟨m, hm, hid.symm.trans (List.mem_singleton.mp hlast).symm⟩

/-- A deletion that is neither invalid nor misses its menu is of a stored menu on no path. -/
theorem stored_leaf_iff {t : Store.Tables} {id : String} :
    (¬((∃ m ∈ t.menus, m.id = id) ∧ ∃ m ∈ t.menus, id ∈ m.parentPath.ids) ∧
        ¬∀ m ∈ t.menus, m.id ≠ id) ↔
      (∃ m ∈ t.menus, m.id = id) ∧ ∀ m ∈ t.menus, id ∉ m.parentPath.ids := by
  constructor
  · rintro ⟨hinvalid, hstored⟩
    have hfound : ∃ m ∈ t.menus, m.id = id := by simpa using hstored
    exact ⟨hfound, fun m hm hpath => hinvalid ⟨hfound, m, hm, hpath⟩⟩
  · rintro ⟨⟨m, hm, hid⟩, hleaf⟩
    exact ⟨fun ⟨_, n, hn, hpath⟩ => hleaf n hn hpath, fun hnone => hnone m hm hid⟩

/-- The refusals of deletions tell a menu with others below it from one that is not stored. -/
theorem verdict_remove {t : Store.Tables} (hforest : t.Forest)
    (hnamed : ∀ m ∈ t.menus, m.id ≠ "") (id : String) :
    Verdict ((∃ m ∈ t.menus, m.id = id) ∧ ∃ m ∈ t.menus, id ∈ m.parentPath.ids)
      (∀ m ∈ t.menus, m.id ≠ id) (removeRefusal? t id) := by
  unfold removeRefusal?
  by_cases hany : t.menus.any (·.id == id) = true
  · obtain ⟨m, hm, hid⟩ := Store.Tables.any_row.mp hany
    have hchild := exists_child_iff_on_path hforest (hid ▸ hnamed m hm)
    rw [if_pos hany]
    dsimp only
    by_cases hcount : 0 < (t.menus.filter (·.parentId == id)).length
    · rw [if_pos hcount]
      obtain ⟨c, hc⟩ := List.length_pos_iff_exists_mem.mp hcount
      obtain ⟨hcmem, hparent⟩ := List.mem_filter.mp hc
      exact .invalid ⟨⟨m, hm, hid⟩, hchild.mp ⟨c, hcmem, beq_iff_eq.mp hparent⟩⟩
    · rw [if_neg hcount]
      refine .accepted (fun ⟨_, hpath⟩ => hcount ?_) fun hnone => hnone m hm hid
      obtain ⟨c, hc, hparent⟩ := hchild.mpr hpath
      exact List.length_pos_of_mem (List.mem_filter.mpr ⟨hc, beq_iff_eq.mpr hparent⟩)
  · have hnone (m : Menu) (hm : m ∈ t.menus) : m.id ≠ id := fun hid =>
      hany (Store.Tables.any_row.mpr ⟨m, hm, hid⟩)
    rw [if_neg hany]
    exact .misses (fun ⟨⟨m, hm, hid⟩, _⟩ => hnone m hm hid) hnone

/-! ## Commits -/

section Commits

variable {env : Surroundings} {used : List String} {d d' : Desk} {id : String}

/-- With a coherent engine a commit of an update is answered with success. -/
theorem update_served {input : MenuInput} {r : Except ServiceError Menu}
    (hs : d.tables.Sound used) (he : d.engine.Coherent) (hf : fault? input.toMenuForm = none)
    (hcommitted : Committed env (applyUpdate · id input)
      (fun s menu => do
        Projecting.afterCommit (discard (Projection.menuGrantees s menu.id))
        return menu) d r d') : ∃ menu, r = .ok menu := by
  obtain ⟨s, menu, hbody, hafter⟩ := hcommitted
  obtain ⟨-, old, row, hupdated⟩ := ends_applyUpdate hs.menus hf hbody
  have hsound : d'.tables.Sound (d'.tables.ids ++ used) := hupdated.sound hs
  have hleads := (leads_return (fun _ => leads_afterCommit fun _ => ends_menuGrantees) hafter).1
  exact (hleads.ok (d := ⟨d'.tables, d.engine⟩) hsound (apt_granting hsound) he).1

/-- With a coherent engine a commit of a deletion is answered with success. -/
theorem delete_served {r : Except ServiceError Unit} (hs : d.tables.Sound used)
    (he : d.engine.Coherent)
    (hcommitted : Committed env (remove · id)
      (fun s granting => Projecting.afterCommit
        (Projecting.forAll granting fun role => discard (Projection.role s role))) d r d') :
    r = .ok () ∧ Removed id d.tables d'.tables := by
  obtain ⟨s, granting, hbody, hafter⟩ := hcommitted
  obtain ⟨hremoved, rfl⟩ := ends_remove hbody
  have hsound : d'.tables.Sound (d'.tables.ids ++ used) := Removed.sound hs hremoved
  have hleads : (FollowUp.roles (d.tables.granting id)).Leads env ⟨d'.tables, d.engine⟩ r d' :=
    leads_afterCommit (fun _ h => h) hafter
  obtain ⟨⟨_, hok⟩, -⟩ :=
    hleads.ok (d := ⟨d'.tables, d.engine⟩) hsound (apt_granting hs) he
  exact ⟨hok, hremoved⟩

end Commits

end Menus

/-! ## Reached worlds -/

/-- The ids of stored menus are not empty. -/
theorem Store.Tables.Sound.menu_ne_empty {used : List String} {t : Store.Tables} (h : t.Sound used)
    {m : Menu} (hm : m ∈ t.menus) : m.id ≠ "" :=
  fun he => h.ids.nonempty (he ▸ Store.Tables.mem_ids.mpr (.inl ⟨m, hm, rfl⟩))

section Reached

variable {used : List String} {w : World MemoryStore}

/-- In a world that undisturbed commands led to, an undisturbed update of a menu is answered. It is
refused as invalid, or else because it misses a menu, and nothing has changed then; otherwise it
succeeds. The store refuses nothing. -/
theorem Reached.menu_update (h : Reached (fun q => q.faults = []) used w) (env : Surroundings)
    (ctx : Context) (id : String) (input : MenuInput) :
    ∃ r w', World.run env (Menus.update ctx id input).run { w with faults := [] } = (some r, w') ∧
      ((∃ text, r = .error (.validation text)) ↔ Menus.Invalid w.tables id input) ∧
      ((∃ text, r = .error (.notFound text)) ↔
        ¬Menus.Invalid w.tables id input ∧ Menus.Misses w.tables id input) ∧
      ((∃ menu, r = .ok menu) ↔
        ¬Menus.Invalid w.tables id input ∧ ¬Menus.Misses w.tables id input) ∧
      (∀ e, r ≠ .error (.storage e)) ∧
      ∀ e, r = .error e → w'.tables = w.tables ∧ w'.engine = w.engine := by
  obtain ⟨r, w', hrun, -, -, hout⟩ :=
    Menus.comes_update env ctx id input { w with faults := [] } rfl h.idle
  have hverdict :=
    Menus.verdict_update h.forest h.sound.menus (fun _ => h.sound.menu_ne_empty) id input
  refine ⟨r, w', hrun, hverdict.answer (fun e he => ?_) fun hnone => ?_⟩
  · obtain ⟨e', he', rfl, hdesk⟩ | ⟨hnone, -⟩ := hout
    · obtain rfl := Option.some.inj (he.symm.trans he')
      exact ⟨rfl, Desk.mk.inj hdesk⟩
    · cases he.symm.trans hnone
  · obtain ⟨e', he', -⟩ | ⟨-, hf, hcommitted⟩ := hout
    · cases hnone.symm.trans he'
    · exact Menus.update_served h.sound h.agrees.1 hf hcommitted

/-- In a world that undisturbed commands led to, an undisturbed deletion of a menu is answered. It
is refused if the menu is not stored or is on the path of another one, and nothing has changed then;
otherwise it takes away the menu with its actions and resources and nothing else, and no menu refers
to it any more. -/
theorem Reached.menu_delete (h : Reached (fun q => q.faults = []) used w) (env : Surroundings)
    (ctx : Context) (id : String) :
    ∃ r w', World.run env (Menus.delete ctx id).run { w with faults := [] } = (some r, w') ∧
      ((∃ text, r = .error (.notFound text)) ↔ ∀ m ∈ w.tables.menus, m.id ≠ id) ∧
      ((∃ text, r = .error (.validation text)) ↔
        (∃ m ∈ w.tables.menus, m.id = id) ∧ ∃ m ∈ w.tables.menus, id ∈ m.parentPath.ids) ∧
      (r = .ok () ↔
        (∃ m ∈ w.tables.menus, m.id = id) ∧ ∀ m ∈ w.tables.menus, id ∉ m.parentPath.ids) ∧
      (r = .ok () →
        w'.tables = { w.tables with
          menus := w.tables.menus.filter (·.id != id)
          menuActions := w.tables.menuActions.filter (·.menuId != id)
          menuResources := w.tables.menuResources.filter (·.menuId != id) } ∧
        ∀ m ∈ w'.tables.menus, m.parentId ≠ id ∧ id ∉ m.parentPath.ids) ∧
      ∀ e, r = .error e → w'.tables = w.tables ∧ w'.engine = w.engine := by
  obtain ⟨r, w', hrun, -, -, hout⟩ :=
    Menus.comes_delete env ctx id { w with faults := [] } rfl h.idle
  have hverdict := Menus.verdict_remove h.forest (fun _ => h.sound.menu_ne_empty) id
  have hremoved (hnone : Menus.removeRefusal? w.tables id = none) :
      r = .ok () ∧ Menus.Removed id w.tables w'.tables := by
    obtain ⟨e, he, -⟩ | ⟨-, hcommitted⟩ := hout
    · cases hnone.symm.trans he
    · exact Menus.delete_served h.sound h.agrees.1 hcommitted
  have hrefused (e : ServiceError) (he : Menus.removeRefusal? w.tables id = some e) :
      r = .error e ∧ w'.tables = w.tables ∧ w'.engine = w.engine := by
    obtain ⟨e', he', rfl, hdesk⟩ | ⟨hnone, -⟩ := hout
    · obtain rfl := Option.some.inj (he.symm.trans he')
      exact ⟨rfl, Desk.mk.inj hdesk⟩
    · cases he.symm.trans hnone
  obtain ⟨hvalidation, hnotFound, hok, -, hkept⟩ :=
    hverdict.answer hrefused fun hnone => ⟨(), (hremoved hnone).1⟩
  have hserved : r = .ok () ↔
      (∃ m ∈ w.tables.menus, m.id = id) ∧ ∀ m ∈ w.tables.menus, id ∉ m.parentPath.ids := by
    have hsome : r = .ok () ↔ ∃ b, r = .ok b := ⟨fun hr => ⟨(), hr⟩, fun ⟨_, hr⟩ => hr⟩
    rw [hsome, hok, Menus.stored_leaf_iff]
  refine ⟨r, w', hrun, ?_, hvalidation, hserved, fun hr => ?_, hkept⟩
  · rw [hnotFound]
    exact and_iff_right_of_imp fun hnone ⟨⟨m, hm, hid⟩, _⟩ => hnone m hm hid
  · have hnone : Menus.removeRefusal? w.tables id = none := by
      cases he : Menus.removeRefusal? w.tables id with
      | none => rfl
      | some e => cases hr.symm.trans (hrefused e he).1
    obtain ⟨-, hremoved⟩ := hremoved hnone
    refine ⟨hremoved.tables, fun m hm => ?_⟩
    rw [hremoved.tables] at hm
    have hbefore : m ∈ w.tables.menus := (List.mem_filter.mp hm).1
    exact ⟨hremoved.childless m hbefore, (hserved.mp hr).2 m hbefore⟩

end Reached

/-- On the sample shelf the first menu is refused a place two levels below itself. -/
theorem sample_update_refused : ∃ r w',
    World.run Sample.env (Menus.update {} "mx" { name := "Orders", parentId := "mxxx" }).run
      { Sample.shelf with faults := [] } = (some r, w') ∧
    (∃ text, r = .error (.validation text)) ∧ w'.tables = Sample.shelf.tables := by
  obtain ⟨used, hreached, -⟩ := Sample.shelf_reached
  have hbelow : ∃ old ∈ Sample.shelf.tables.menus, old.id = "mx" ∧ "mxxx" ≠ old.parentId ∧
      ∃ p ∈ Sample.shelf.tables.menus, p.id = "mxxx" ∧
        Sample.shelf.tables.climb 2 p = some old := by
    decide +kernel
  obtain ⟨old, hold, hid, hmoves, p, hp, hpid, hclimb⟩ := hbelow
  obtain ⟨r, w', hrun, hvalidation, -, -, -, hkept⟩ :=
    hreached.menu_update Sample.env {} "mx" { name := "Orders", parentId := "mxxx" }
  obtain ⟨text, hr⟩ := hvalidation.mpr
    (.inr (.inr ⟨old, hold, hid, hmoves, p, hp, hpid, 2, by decide, hclimb⟩))
  exact ⟨r, w', hrun, ⟨text, hr⟩, (hkept _ hr).1⟩

/-- On the sample shelf a menu without children is deleted. -/
theorem sample_delete : ∃ w',
    World.run Sample.env (Menus.delete {} "mxxx").run { Sample.shelf with faults := [] } =
      (some (.ok ()), w') ∧
    ∀ m ∈ w'.tables.menus, m.parentId ≠ "mxxx" ∧ "mxxx" ∉ m.parentPath.ids := by
  obtain ⟨used, hreached, -⟩ := Sample.shelf_reached
  have hleaf : (∃ m ∈ Sample.shelf.tables.menus, m.id = "mxxx") ∧
      ∀ m ∈ Sample.shelf.tables.menus, "mxxx" ∉ m.parentPath.ids := by
    decide +kernel
  obtain ⟨r, w', hrun, -, -, hserved, hafter, -⟩ := hreached.menu_delete Sample.env {} "mxxx"
  obtain rfl := hserved.mpr hleaf
  exact ⟨w', hrun, (hafter rfl).2⟩

end AccessAdmin
