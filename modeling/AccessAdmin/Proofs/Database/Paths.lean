import AccessAdmin.Proofs.Database.Patterns

/-!
# Paths kept as texts

The empty text is the path of a root menu and a slash ends an id, so what cannot be kept is a path
of one empty id, and an id with a slash. On the texts a rebasing replaces the beginning and leaves
the rest as it is.

* `AncestorPath.isStored_iff`: which paths are read back from the text that they are kept as.
* `AncestorPath.rebase_back`: a rebased path is brought back by rebasing it.
* `AncestorPath.toStorage_append`: the text of a path that goes on after a beginning.
* `AncestorPath.kept_as_text`: all of it.
-/

namespace AccessAdmin

namespace Text

variable {sep : Char}

/-- A text of pieces is empty if there are none, or one that is empty. -/
theorem joinWith_eq_nil_iff {pieces : List (List Char)} :
    joinWith sep pieces = [] ↔ pieces = [] ∨ pieces = [[]] := by
  match pieces with
  | [] => simp [joinWith]
  | [piece] => simp [joinWith]
  | piece :: next :: rest => simp [joinWith]

end Text

namespace AncestorPath

variable {p q old new : AncestorPath}

/-! ## Which paths are read back -/

theorem toStorage_toList : p.toStorage.toList = Text.joinWith '/' (p.ids.map String.toList) := by
  rw [toStorage, Text.join, String.toList_ofList]

theorem toStorage_eq_nil_iff : p.toStorage.toList = [] ↔ p.ids = [] ∨ p.ids = [""] := by
  rw [toStorage_toList, Text.joinWith_eq_nil_iff, List.map_eq_nil_iff]
  refine or_congr_right ⟨fun h => ?_, fun h => by rw [h]; rfl⟩
  obtain ⟨id, hids, hid⟩ := List.map_eq_singleton_iff.mp h
  rw [hids, String.toList_eq_nil_iff.mp hid]

/-- A path is read back from its text unless it holds nothing but an empty id, or an id with a
slash. -/
theorem isStored_iff : p.IsStored ↔ p.ids ≠ [""] ∧ ∀ id ∈ p.ids, '/' ∉ id.toList := by
  by_cases hroot : p.ids = []
  · have hp : p = root := congrArg AncestorPath.mk hroot
    subst hp
    simp [IsStored, root, toStorage, Text.join, Text.joinWith, ofStorage]
  constructor
  · intro h
    obtain ⟨hne, hpieces⟩ := h.splitOn (by simpa [isRoot] using hroot)
    refine ⟨fun hempty => hne (toStorage_eq_nil_iff.mpr (.inr hempty)), fun id hid => ?_⟩
    have hpiece : id.toList ∈ Text.splitOn '/' p.toStorage.toList := by
      rw [hpieces]
      exact List.mem_map_of_mem hid
    exact Text.not_mem_of_mem_splitOn hpiece
  · rintro ⟨hempty, hslash⟩
    have hne : p.toStorage.toList ≠ [] := by
      rw [Ne, toStorage_eq_nil_iff, not_or]
      exact ⟨hroot, hempty⟩
    have hpieces : Text.splitOn '/' p.toStorage.toList = p.ids.map String.toList := by
      rw [toStorage_toList]
      refine Text.splitOn_joinWith (by simpa using hroot) fun piece hpiece => ?_
      obtain ⟨id, hid, rfl⟩ := List.mem_map.mp hpiece
      exact hslash id hid
    rw [IsStored, ofStorage, if_neg hne, Text.split, hpieces, List.map_map]
    simp

/-- The path below menus one under the other. -/
theorem ids_foldl_child (ids : List String) : (ids.foldl child p).ids = p.ids ++ ids := by
  induction ids generalizing p with
  | nil => exact (List.append_nil p.ids).symm
  | cons id ids ih => rw [List.foldl_cons, ih, child, List.append_assoc, List.singleton_append]

/-! ## Rebasing -/

/-- What a rebasing makes of a path: the ids after the old beginning stand after the new one. -/
theorem rebase_eq_some_iff :
    p.rebase old new = some q ↔ ∃ rest, p.ids = old.ids ++ rest ∧ q.ids = new.ids ++ rest := by
  unfold rebase
  split
  · rename_i hstart
    obtain ⟨rest, hids⟩ := List.isPrefixOf_iff_prefix.mp hstart
    rw [← hids, List.drop_left, Option.some.injEq]
    constructor
    · rintro rfl
      exact ⟨rest, rfl, rfl⟩
    · rintro ⟨rest', heq, hq⟩
      rw [List.append_cancel_left heq, ← hq]
  · rename_i hstart
    constructor
    · rintro ⟨⟩
    · rintro ⟨rest, hids, -⟩
      exact absurd (List.isPrefixOf_iff_prefix.mpr ⟨rest, hids.symm⟩) hstart

/-- A rebased path is brought back by rebasing it. -/
theorem rebase_back (h : p.rebase old new = some q) : q.rebase new old = some p := by
  obtain ⟨rest, hp, hq⟩ := rebase_eq_some_iff.mp h
  exact rebase_eq_some_iff.mpr ⟨rest, hq, hp⟩

/-- What stands in a text after a beginning that is not a root's, does not depend on the beginning:
nothing, or a slash and the ids that follow. -/
def continuation (rest : List String) : String :=
  if rest = [] then "" else String.ofList ('/' :: Text.joinWith '/' (rest.map String.toList))

theorem toStorage_append {start : AncestorPath} {rest : List String} (hroot : start ≠ root)
    (hids : p.ids = start.ids ++ rest) : p.toStorage = start.toStorage ++ continuation rest := by
  rw [← String.toList_inj, String.toList_append, toStorage_toList, toStorage_toList, hids,
    continuation]
  split
  · rename_i hrest
    rw [hrest, List.append_nil]
    exact (List.append_nil _).symm
  · rename_i hrest
    have hne : start.ids ≠ [] := fun h => hroot (congrArg AncestorPath.mk h)
    rw [List.map_append, Text.joinWith_append (by simpa using hne) (by simpa using hrest),
      String.toList_ofList]

/-- Paths are kept as texts. Every text is one of a path. A path below menus one under the other is
read back from its text exactly if it is not that of one empty id and no id holds a slash. A path is
rebased exactly from its own beginnings, the rebased path is brought back by rebasing it, and from
and to a beginning that is not a root's the text goes on as it did. -/
theorem kept_as_text :
    (∀ raw, (ofStorage raw).toStorage = raw) ∧
      (∀ ids : List String, ofStorage (ids.foldl child root).toStorage = ids.foldl child root ↔
        ids ≠ [""] ∧ ∀ id ∈ ids, '/' ∉ id.toList) ∧
      ∀ p old new : AncestorPath,
        ((p.rebase old new).isSome ↔ p.startsWith old = true) ∧
        (p.startsWith old = true ↔ ∃ rest, p.ids = old.ids ++ rest) ∧
        ∀ q, p.rebase old new = some q →
          q.rebase new old = some p ∧
            (old ≠ root → new ≠ root →
              ∃ t, p.toStorage = old.toStorage ++ t ∧ q.toStorage = new.toStorage ++ t) := by
  refine ⟨toStorage_ofStorage, fun ids => ?_, fun p old new => ⟨?_, ?_, fun q hq => ?_⟩⟩
  · have hids : (ids.foldl child root).ids = ids := ids_foldl_child ids
    have hstored := isStored_iff (p := ids.foldl child root)
    rwa [hids] at hstored
  · rw [isSome_rebase]
  · rw [startsWith, List.isPrefixOf_iff_prefix]
    exact exists_congr fun _ => eq_comm
  · refine ⟨rebase_back hq, fun hold hnew => ?_⟩
    obtain ⟨rest, hp, hq⟩ := rebase_eq_some_iff.mp hq
    exact ⟨continuation rest, toStorage_append hold hp, toStorage_append hnew hq⟩

/-- One empty id is read back as no id, a slash in an id as the end of one. -/
example : ofStorage (root.child "").toStorage = root ∧
    ofStorage (root.child "a/b").toStorage = (root.child "a").child "b" := by decide

end AncestorPath

end AccessAdmin
