/-!
# Separated lists

Splitting a text at every separator and joining pieces with it. Splitting never gives the empty
list: the empty text is one empty piece.

* `joinWith_splitOn`: joining the pieces of a text gives the text back.
* `splitOn_joinWith`: pieces without the separator, at least one, are found again.
-/

namespace AccessAdmin.Text

/-- Cuts at every separator. -/
def splitOn (sep : Char) : List Char → List (List Char)
  | [] => [[]]
  | c :: cs =>
    if c = sep then [] :: splitOn sep cs
    else
      match splitOn sep cs with
      | [] => [[c]]
      | piece :: rest => (c :: piece) :: rest

/-- Puts one separator between neighbours. -/
def joinWith (sep : Char) : List (List Char) → List Char
  | [] => []
  | [piece] => piece
  | piece :: next :: rest => piece ++ sep :: joinWith sep (next :: rest)

/-- The pieces of a text between separators. -/
def split (sep : Char) (s : String) : List String :=
  (splitOn sep s.toList).map String.ofList

/-- The pieces with one separator between neighbours. -/
def join (sep : Char) (pieces : List String) : String :=
  String.ofList (joinWith sep (pieces.map String.toList))

theorem splitOn_ne_nil (sep : Char) (cs : List Char) : splitOn sep cs ≠ [] := by
  cases cs with
  | nil => simp [splitOn]
  | cons c cs =>
    unfold splitOn
    split
    · simp
    · split <;> simp

@[simp] theorem joinWith_splitOn (sep : Char) (cs : List Char) :
    joinWith sep (splitOn sep cs) = cs := by
  induction cs with
  | nil => rfl
  | cons c cs ih =>
    unfold splitOn
    split
    · rename_i h
      match hs : splitOn sep cs with
      | [] => exact absurd hs (splitOn_ne_nil sep cs)
      | piece :: rest =>
        rw [hs] at ih
        simp [joinWith, ih, h]
    · match hs : splitOn sep cs with
      | [] => exact absurd hs (splitOn_ne_nil sep cs)
      | [piece] =>
        rw [hs] at ih
        simpa [joinWith] using ih
      | piece :: next :: rest =>
        rw [hs] at ih
        simp only [joinWith, List.cons_append]
        exact congrArg (c :: ·) ih

theorem splitOn_of_not_mem {sep : Char} {cs : List Char} (h : sep ∉ cs) :
    splitOn sep cs = [cs] := by
  induction cs with
  | nil => rfl
  | cons c cs ih =>
    have hc : c ≠ sep := fun e => h (by simp [e])
    have hcs : sep ∉ cs := fun m => h (by simp [m])
    simp [splitOn, hc, ih hcs]

theorem splitOn_append_sep {sep : Char} {piece : List Char} (h : sep ∉ piece) (cs : List Char) :
    splitOn sep (piece ++ sep :: cs) = piece :: splitOn sep cs := by
  induction piece with
  | nil => simp [splitOn]
  | cons c piece ih =>
    have hc : c ≠ sep := fun e => h (by simp [e])
    have hp : sep ∉ piece := fun m => h (by simp [m])
    simp [splitOn, hc, ih hp]

theorem splitOn_joinWith {sep : Char} {pieces : List (List Char)} (hne : pieces ≠ [])
    (h : ∀ piece ∈ pieces, sep ∉ piece) : splitOn sep (joinWith sep pieces) = pieces := by
  induction pieces with
  | nil => exact absurd rfl hne
  | cons piece rest ih =>
    cases rest with
    | nil => exact splitOn_of_not_mem (h piece (by simp))
    | cons next rest =>
      rw [joinWith, splitOn_append_sep (h piece (by simp)), ih (by simp)]
      intro p hp
      exact h p (List.mem_cons_of_mem _ hp)

end AccessAdmin.Text
