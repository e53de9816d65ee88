import AccessAdmin.AncestorPath
import AccessAdmin.Database.Pattern
import AccessAdmin.Text.Search

/-!
# What patterns stand for

An escaped text stands for itself alone, so a pattern made from it finds what a search of the text
finds, whatever characters it holds. The path of a menu is kept as one text, and that the path
begins with another one, id by id, is seen from the text: it is the other one's text, or goes on
after it with a slash.

* `Pattern.accepts_containing`: the texts in which another one stands.
* `AncestorPath.toStorage_iff_startsWith`: the beginnings of a path, by its text.
-/

namespace AccessAdmin

/-! ## Searching a text -/

namespace Text

theorem containsChars_iff {needle cs : List Char} :
    containsChars needle cs = true ↔ needle <:+: cs := by
  induction cs with
  | nil => simp [containsChars]
  | cons c cs ih => simp [containsChars, ih, List.infix_cons_iff]

/-- A text contains another one exactly if it stands between two others. -/
theorem contains_iff {s needle : String} :
    contains s needle = true ↔ ∃ before after, s = before ++ needle ++ after := by
  unfold contains
  rw [containsChars_iff]
  constructor
  · rintro ⟨before, after, h⟩
    refine ⟨String.ofList before, String.ofList after, ?_⟩
    simp [← String.toList_inj, h]
  · rintro ⟨before, after, rfl⟩
    exact ⟨before.toList, after.toList, by simp⟩

end Text

/-! ## Patterns -/

namespace Database.Pattern

variable {p s t : List Char} {c : Char}

theorem anyEnd_iff {accepts : List Char → Bool} :
    anyEnd accepts t = true ↔ ∃ before rest, t = before ++ rest ∧ accepts rest = true := by
  induction t with
  | nil => simp [anyEnd, and_assoc]
  | cons c t ih =>
    rw [anyEnd, Bool.or_eq_true, ih]
    constructor
    · rintro (hall | ⟨before, rest, rfl, hrest⟩)
      · exact ⟨[], c :: t, rfl, hall⟩
      · exact ⟨c :: before, rest, rfl, hrest⟩
    · rintro ⟨before, rest, hsplit, hrest⟩
      cases before with
      | nil =>
        rw [List.nil_append] at hsplit
        exact .inl (hsplit ▸ hrest)
      | cons b before =>
        obtain ⟨rfl, rfl⟩ := List.cons.inj hsplit
        exact .inr ⟨before, rest, rfl, hrest⟩

/-- The percent sign stands for any text. -/
theorem acceptsChars_percent :
    acceptsChars ('%' :: p) t = true ↔
      ∃ before rest, t = before ++ rest ∧ acceptsChars p rest = true := by
  rw [acceptsChars, anyEnd_iff]

/-- A pattern that ends with the percent sign leaves open how a text goes on. -/
theorem acceptsChars_open : acceptsChars ['%'] t = true :=
  acceptsChars_percent.2 ⟨t, [], (List.append_nil t).symm, rfl⟩

/-- After a backslash a character stands for itself. -/
theorem acceptsChars_escaped :
    acceptsChars ('\\' :: c :: p) t = true ↔ ∃ rest, t = c :: rest ∧ acceptsChars p rest = true := by
  cases t with
  | nil => simp [acceptsChars]
  | cons d t => simp [acceptsChars, and_assoc]

/-- So does a character without a meaning of its own. -/
theorem acceptsChars_plain (h : isSpecial c = false) :
    acceptsChars (c :: p) t = true ↔ ∃ rest, t = c :: rest ∧ acceptsChars p rest = true := by
  simp only [isSpecial, Bool.or_eq_false_iff, beq_eq_false_iff_ne] at h
  obtain ⟨⟨hslash, hpercent⟩, hline⟩ := h
  cases t with
  | nil => simp [acceptsChars, hslash]
  | cons d t => simp [acceptsChars, hslash, and_assoc]

/-- An escaped text stands for itself, whatever comes after it. By induction on the text. -/
theorem acceptsChars_escape :
    acceptsChars (escapeChars s ++ p) t = true ↔
      ∃ rest, t = s ++ rest ∧ acceptsChars p rest = true := by
  induction s generalizing t with
  | nil => simp [escapeChars]
  | cons c s ih =>
    have hcons : acceptsChars (escapeChars (c :: s) ++ p) t = true ↔
        ∃ rest, t = c :: rest ∧ acceptsChars (escapeChars s ++ p) rest = true := by
      by_cases hspecial : isSpecial c = true
      · rw [escapeChars, if_pos hspecial]
        exact acceptsChars_escaped
      · rw [escapeChars, if_neg hspecial]
        exact acceptsChars_plain (Bool.eq_false_iff.2 hspecial)
    rw [hcons]
    constructor
    · rintro ⟨_, rfl, hrest⟩
      obtain ⟨rest, rfl, hp⟩ := ih.1 hrest
      exact ⟨rest, rfl, hp⟩
    · rintro ⟨rest, rfl, hp⟩
      exact ⟨s ++ rest, rfl, ih.2 ⟨rest, rfl, hp⟩⟩

/-- The pattern made from a text stands for the texts that contain it. -/
theorem accepts_containing {raw text : String} :
    accepts (containing raw) text = true ↔ Text.contains text raw = true := by
  have hpattern : (containing raw).toList = '%' :: (escapeChars raw.toList ++ ['%']) := by
    simp [containing, escape]
  rw [accepts, hpattern, Text.contains, Text.containsChars_iff, acceptsChars_percent]
  constructor
  · rintro ⟨before, rest, hsplit, hrest⟩
    obtain ⟨after, rfl, -⟩ := acceptsChars_escape.1 hrest
    exact ⟨before, after, by rw [hsplit, List.append_assoc]⟩
  · rintro ⟨before, after, hsplit⟩
    refine ⟨before, raw.toList ++ after, by rw [← hsplit, List.append_assoc], ?_⟩
    exact acceptsChars_escape.2 ⟨after, rfl, acceptsChars_open⟩

/-- The pattern of the texts below another one stands for those that go on after it with a slash. -/
theorem accepts_below {s text : String} :
    accepts (below s) text = true ↔ ∃ rest, text.toList = s.toList ++ '/' :: rest := by
  have hpattern : (below s).toList = escapeChars s.toList ++ ['/', '%'] := by
    simp [below, escape]
  rw [accepts, hpattern, acceptsChars_escape]
  constructor
  · rintro ⟨_, htext, hslash⟩
    obtain ⟨rest, rfl, -⟩ := (acceptsChars_plain (by decide)).1 hslash
    exact ⟨rest, htext⟩
  · rintro ⟨rest, htext⟩
    exact ⟨'/' :: rest, htext, (acceptsChars_plain (by decide)).2 ⟨rest, rfl, acceptsChars_open⟩⟩

end Database.Pattern

/-! ## Paths as texts -/

namespace Text

variable {sep : Char}

/-- At a separator the pieces of both sides come together. -/
theorem splitOn_append (before after : List Char) :
    splitOn sep (before ++ sep :: after) = splitOn sep before ++ splitOn sep after := by
  induction before with
  | nil => simp [splitOn]
  | cons c before ih =>
    by_cases hc : c = sep
    · simp [splitOn, hc, ih]
    · simp only [List.cons_append, splitOn, if_neg hc, ih]
      cases hpieces : splitOn sep before with
      | nil => exact absurd hpieces (splitOn_ne_nil sep before)
      | cons piece pieces => rfl

/-- No separator is left in a piece. -/
theorem not_mem_of_mem_splitOn {cs piece : List Char} (h : piece ∈ splitOn sep cs) :
    sep ∉ piece := by
  induction cs generalizing piece with
  | nil =>
    obtain rfl := List.mem_singleton.mp h
    exact List.not_mem_nil
  | cons c cs ih =>
    unfold splitOn at h
    split at h
    · rcases List.mem_cons.mp h with rfl | h
      · exact List.not_mem_nil
      · exact ih h
    · rename_i hc
      split at h
      · rename_i hnone
        exact absurd hnone (splitOn_ne_nil sep cs)
      · rename_i first rest hpieces
        rw [hpieces] at ih
        rcases List.mem_cons.mp h with rfl | h
        · exact List.not_mem_cons_of_ne_of_not_mem (Ne.symm hc) (ih (.head _))
        · exact ih (.tail _ h)

theorem joinWith_append {pieces more : List (List Char)} (hpieces : pieces ≠ []) (hmore : more ≠ []) :
    joinWith sep (pieces ++ more) = joinWith sep pieces ++ sep :: joinWith sep more := by
  induction pieces with
  | nil => exact absurd rfl hpieces
  | cons piece pieces ih =>
    cases pieces with
    | nil =>
      cases more with
      | nil => exact absurd rfl hmore
      | cons next more => rfl
    | cons next pieces =>
      have htail := ih (List.cons_ne_nil next pieces)
      simp only [List.cons_append, joinWith] at htail ⊢
      rw [htail, List.append_assoc, List.cons_append]

end Text

namespace AncestorPath

/-- Whether a path is read back from the text that it is kept as. -/
def IsStored (p : AncestorPath) : Prop := ofStorage p.toStorage = p

instance : DecidablePred IsStored := fun p => inferInstanceAs (Decidable (ofStorage p.toStorage = p))

theorem isStored_ofStorage (raw : String) : (ofStorage raw).IsStored :=
  congrArg ofStorage (toStorage_ofStorage raw)

variable {p start : AncestorPath}

/-- The text of a stored path that is not a root's holds something, and its pieces are the ids. -/
theorem IsStored.splitOn (h : p.IsStored) (hroot : p.isRoot = false) :
    p.toStorage.toList ≠ [] ∧ Text.splitOn '/' p.toStorage.toList = p.ids.map String.toList := by
  unfold IsStored ofStorage at h
  split at h
  · rw [← h] at hroot
    cases hroot
  · next hne =>
    have hids : p.ids = (Text.splitOn '/' p.toStorage.toList).map String.ofList :=
      (congrArg ids h).symm
    refine ⟨hne, ?_⟩
    rw [hids, List.map_map]
    simp

/-- A path of which the text is not empty is not a root's. -/
theorem isRoot_eq_false (h : p.toStorage.toList ≠ []) : p.isRoot = false := by
  rw [Bool.eq_false_iff]
  intro hempty
  refine h ?_
  rw [toStorage, List.isEmpty_iff.1 hempty]
  rfl

theorem IsStored.startsWith_of_toStorage (hp : p.IsStored) (hstart : start.IsStored)
    (hroot : start.isRoot = false)
    (h : p.toStorage = start.toStorage ∨
      ∃ rest, p.toStorage.toList = start.toStorage.toList ++ '/' :: rest) :
    start.ids <+: p.ids := by
  obtain ⟨hne, hpieces⟩ := hstart.splitOn hroot
  have hne' : p.toStorage.toList ≠ [] := by
    rcases h with heq | ⟨rest, hrest⟩
    · rw [heq]
      exact hne
    · rw [hrest]
      exact List.append_ne_nil_of_right_ne_nil _ (List.cons_ne_nil _ _)
  obtain ⟨-, hpieces'⟩ := hp.splitOn (isRoot_eq_false hne')
  -- Cut at the slashes, both texts fall into their ids.
  have hids : start.ids.map String.toList <+: p.ids.map String.toList := by
    rcases h with heq | ⟨rest, hrest⟩
    · have hsame : start.ids.map String.toList = p.ids.map String.toList := by
        rw [← hpieces, ← hpieces', heq]
      exact hsame ▸ List.prefix_rfl
    · rw [← hpieces, ← hpieces', hrest, Text.splitOn_append]
      exact List.prefix_append _ _
  obtain ⟨ids, hids, heq⟩ := List.prefix_map_iff.1 hids
  rwa [(List.map_inj_right fun _ _ => String.toList_inj.1).1 heq]

/-- The ids of a path that goes on after another one are put together from both. -/
theorem toStorage_of_startsWith (hroot : start.isRoot = false) (h : start.ids <+: p.ids) :
    p.toStorage = start.toStorage ∨
      ∃ rest, p.toStorage.toList = start.toStorage.toList ++ '/' :: rest := by
  obtain ⟨more, hids⟩ := h
  by_cases hmore : more = []
  · left
    rw [hmore, List.append_nil] at hids
    rw [toStorage, toStorage, hids]
  · right
    have hne : start.ids ≠ [] := by
      simpa [isRoot] using hroot
    refine ⟨Text.joinWith '/' (more.map String.toList), ?_⟩
    rw [toStorage, toStorage, Text.join, Text.join, String.toList_ofList, String.toList_ofList,
      ← hids, List.map_append]
    exact Text.joinWith_append (by simpa using hne) (by simpa using hmore)

/-- A path begins with another one, id by id, exactly if its text is the other one's or goes on
after it with a slash. -/
theorem toStorage_iff_startsWith (hp : p.IsStored) (hstart : start.IsStored)
    (hroot : start.isRoot = false) :
    p.toStorage = start.toStorage ∨
        (∃ rest, p.toStorage.toList = start.toStorage.toList ++ '/' :: rest) ↔
      p.startsWith start = true := by
  rw [startsWith, List.isPrefixOf_iff_prefix]
  exact ⟨hp.startsWith_of_toStorage hstart hroot, toStorage_of_startsWith hroot⟩

end AncestorPath

end AccessAdmin
