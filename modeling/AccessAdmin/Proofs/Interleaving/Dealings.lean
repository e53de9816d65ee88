import AccessAdmin.Proofs.Interleaving.Rules

/-!
# Dealings with the engine

What a projection does beside others is told by its dealings: the calls that it makes on the engine,
in order, with their answers. If nobody else touches a rule meanwhile, its dealings decide whether
the rule is held after them.

* `Dealing.leavesAll`: whether a rule is held after some dealings.
* `Dealing.Told`: answers that an engine could have given.
* `Dealing.Handles`: dealings that set a rule as it should be, or do not touch it.
-/

namespace AccessAdmin

open Policy

/-- A call on the engine and its answer. -/
structure Dealing where
  call : Policy.Call
  reply : call.Reply

namespace Dealing

/-- Whether a rule is held after some accepted dealings, if it was held before as `h` says. -/
def leavesAll (x : Rule) (h : Prop) (ds : List Dealing) : Prop :=
  ds.foldl (fun h d => d.call.leaves x h) h

/-- The answers are those of engines that hold a rule as the dealings before them have left it,
however patterns are read. -/
def Told (x : Rule) : Prop → List Dealing → Prop
  | _, [] => True
  | h, d :: ds =>
    (∃ (reads : PathPattern.Reader) (e : Engine), e.Orderly ∧ (e.Holds x ↔ h) ∧
      d.reply = (e.perform reads d.call).1) ∧
      Told x (d.call.leaves x h) ds

/-- The dealings touch a rule if `c` says so, and then the rule is held after them if it is wanted,
whatever was before. All of them are accepted. -/
structure Handles (x : Rule) (wanted c : Prop) (ds : List Dealing) : Prop where
  hit : c → (∃ d ∈ ds, d.call.touches x = true) ∧
    ∀ h, Told x h ds → (leavesAll x h ds ↔ wanted)
  miss : ¬c → ∀ d ∈ ds, d.call.touches x = false
  accepted : ∀ d ∈ ds, d.call.Accepted d.reply

variable {x : Rule} {wanted c c' h : Prop} {d : Dealing} {ds ds' : List Dealing}

theorem leavesAll_append : leavesAll x h (ds ++ ds') = leavesAll x (leavesAll x h ds) ds' :=
  List.foldl_append

theorem told_append : Told x h (ds ++ ds') ↔ Told x h ds ∧ Told x (leavesAll x h ds) ds' := by
  induction ds generalizing h with
  | nil => exact ⟨fun ht => ⟨trivial, ht⟩, fun ht => ht.2⟩
  | cons d ds ih =>
    simp only [List.cons_append, Told, ih, and_assoc]
    rfl

/-- Dealings that do not touch a rule leave it. -/
theorem leavesAll_untouched (hds : ∀ d ∈ ds, d.call.touches x = false) :
    leavesAll x h ds ↔ h := by
  induction ds generalizing h with
  | nil => exact Iff.rfl
  | cons d ds ih =>
    show leavesAll x (d.call.leaves x h) ds ↔ h
    rw [ih fun d' hd' => hds d' (.tail _ hd')]
    simp only [Call.leaves, hds d (.head _), Bool.false_eq_true, false_and, true_and, false_or]

theorem leavesAll_adds (hds : ∀ d ∈ ds, d.call.adds = true) :
    leavesAll x h ds ↔ h ∨ ∃ d ∈ ds, d.call.touches x = true := by
  induction ds generalizing h with
  | nil => exact (or_iff_left fun ⟨_, hd, _⟩ => nomatch hd).symm
  | cons d ds ih =>
    show leavesAll x (d.call.leaves x h) ds ↔ _
    rw [ih fun d' hd' => hds d' (.tail _ hd'), List.exists_mem_cons_iff, Call.leaves,
      hds d (.head _)]
    cases d.call.touches x <;> simp

namespace Handles

theorem nil : Handles x wanted False [] where
  hit h := h.elim
  miss _ _ hd := nomatch hd
  accepted _ hd := nomatch hd

theorem congr (hh : Handles x wanted c ds) (hc : c ↔ c') : Handles x wanted c' ds :=
  ⟨fun h => hh.hit (hc.2 h), fun h => hh.miss fun h' => h (hc.1 h'), hh.accepted⟩

/-- The later of two series decides. -/
theorem append (hh : Handles x wanted c ds) (hh' : Handles x wanted c' ds') :
    Handles x wanted (c ∨ c') (ds ++ ds') where
  hit hor := by
    constructor
    · rcases hor with hc | hc
      · obtain ⟨d, hd, ht⟩ := (hh.hit hc).1
        exact ⟨d, List.mem_append_left _ hd, ht⟩
      · obtain ⟨d, hd, ht⟩ := (hh'.hit hc).1
        exact ⟨d, List.mem_append_right _ hd, ht⟩
    · intro h htold
      obtain ⟨htold, htold'⟩ := told_append.1 htold
      rw [leavesAll_append]
      by_cases hc' : c'
      · exact (hh'.hit hc').2 _ htold'
      · rw [leavesAll_untouched (hh'.miss hc')]
        exact (hh.hit (hor.resolve_right hc')).2 h htold
  miss hno d hd := by
    obtain ⟨hc, hc'⟩ := not_or.1 hno
    rcases List.mem_append.1 hd with hd | hd
    · exact hh.miss hc d hd
    · exact hh'.miss hc' d hd
  accepted d hd := by
    rcases List.mem_append.1 hd with hd | hd
    · exact hh.accepted d hd
    · exact hh'.accepted d hd

/-- A removal, and then the addition of what is wanted. -/
theorem anew (hremove : d.call.adds = false) (haccepted : d.call.Accepted d.reply)
    (hd : d.call.touches x = true ↔ c)
    (hadds : ∀ d ∈ ds, d.call.adds = true ∧ d.call.Accepted d.reply ∧
      (d.call.touches x = true → c))
    (hwanted : c → ((∃ d ∈ ds, d.call.touches x = true) ↔ wanted)) :
    Handles x wanted c (d :: ds) where
  hit hc := by
    refine ⟨⟨d, .head _, hd.2 hc⟩, fun h _ => ?_⟩
    show leavesAll x (d.call.leaves x h) ds ↔ wanted
    rw [leavesAll_adds fun d hd => (hadds d hd).1, hwanted hc, Call.leaves, hremove, hd.2 hc]
    simp only [Bool.false_eq_true, and_false, Bool.true_eq_false, false_and, or_self, false_or]
  miss hc := by
    refine List.forall_mem_cons.2 ⟨?_, fun d hd => ?_⟩
    · exact Bool.eq_false_iff.2 fun ht => hc (hd.1 ht)
    · exact Bool.eq_false_iff.2 fun ht => hc ((hadds d hd).2.2 ht)
  accepted := List.forall_mem_cons.2 ⟨haccepted, fun d hd => (hadds d hd).2.1⟩

/-- A removal of what is not wanted. -/
theorem removal (hremove : d.call.adds = false) (haccepted : d.call.Accepted d.reply)
    (hd : d.call.touches x = true ↔ c) (hwanted : c → ¬wanted) : Handles x wanted c [d] :=
  anew hremove haccepted hd (fun _ hd => nomatch hd) fun hc =>
    ⟨fun ⟨_, hd, _⟩ => (nomatch hd), fun hw => (hwanted hc hw).elim⟩

end Handles

end Dealing

end AccessAdmin
