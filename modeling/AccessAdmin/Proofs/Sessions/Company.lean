import AccessAdmin.Proofs.Running.Commit
import AccessAdmin.Proofs.Sessions.Histories

/-!
# A program among other sessions

A session runs a program on a shared store while other sessions act between its steps, as often and
in whatever way they like. A step under a time limit may be cut short; it then has no effect, and
how long anything takes plays no part. The history of the run records the acts of all sessions.

* `Program.Among`: what a program comes to among other sessions.
* `Program.Yields`: what a program comes to inside a transaction, told by the tables alone.
* `Program.Yields.among`, `Program.Yields.limited`: inside a transaction the others do not matter.
-/

namespace AccessAdmin

open Store

/-! ## The acts of others -/

namespace Store

/-- Other sessions than `s` act one after the other. -/
def Others (s : SessionId) (st : Shared) (log : List Entry) (st' : Shared) : Prop :=
  (∀ e ∈ log, e.act.session ≠ s) ∧ Replays st log st'

variable {s : SessionId} {st st₁ st' : Shared} {log log' : List Entry}

theorem others_nil : Others s st [] st := ⟨fun _ h => (nomatch h), Replays.nil st⟩

theorem Others.append (h : Others s st log st₁) (h' : Others s st₁ log' st') :
    Others s st (log ++ log') st' := by
  refine ⟨fun e he => ?_, h.2.append h'.2⟩
  rcases List.mem_append.mp he with he | he
  · exact h.1 e he
  · exact h'.1 e he

/-- A transaction is ended by nobody else. -/
theorem ending_of_other {e : Entry} (h : e.act.session ≠ s) : e.ending s = none := by
  cases e with
  | closed s' => exact if_neg h
  | called s' c r =>
    cases r with
    | blocked => rfl
    | answered r => exact if_neg fun hs => h hs.1

theorem fate_append : fate s (log ++ log') = (fate s log).or (fate s log') :=
  List.findSome?_append

/-- While a session has a transaction open, the others change nothing. -/
theorem Others.holding {w : Writer} (h : Others s st log st') (hw : st.writer = some w)
    (hs : w.session = s) : st' = st ∧ fate s log = none := by
  subst hs
  obtain ⟨hlog, hreplays⟩ := h
  refine ⟨?_, List.findSome?_eq_none_iff.mpr fun e he => ending_of_other (hlog e he)⟩
  induction log with
  | nil => exact ((Replays.nil st).unique hreplays).symm
  | cons e rest ih =>
    obtain ⟨-, hrest⟩ := hreplays.cons
    rw [Shared.act_other hw (hlog e (.head _))] at hrest
    exact ih (fun e he => hlog e (.tail _ he)) hrest

/-- Whoever has a transaction open after an act had it before, or is the one who acted. -/
theorem Shared.writer_act {a : Act} {w' : Writer} (h : (st.act a).2.writer = some w') :
    w'.session = a.session ∨ ∃ w, st.writer = some w ∧ w.session = w'.session := by
  cases hw : st.writer with
  | none =>
    have hnone : st.inTransaction a.session = false := by rw [inTransaction, hw]; rfl
    cases a with
    | close s' =>
      rw [Act.session] at hnone
      simp only [act, close, hnone, Bool.false_eq_true, ↓reduceIte, hw, reduceCtorEq] at h
    | call s' c =>
      rw [Act.session] at hnone
      cases c with
      | begin =>
        simp only [act, call, hw, Option.some.injEq] at h
        exact .inl (h ▸ rfl)
      | commit => simp only [act, call, hw, reduceCtorEq] at h
      | rollback =>
        simp only [act, call, hnone, Bool.false_eq_true, ↓reduceIte, hw, reduceCtorEq] at h
      | read _ => simp only [act, call, view, hw, reduceCtorEq] at h
      | write x =>
        simp only [act, call, view, put, hw] at h
        cases hx : st.tables.apply x <;> simp only [hx, hw, reduceCtorEq] at h
  | some w =>
    by_cases hown : a.session = w.session
    · left
      cases a with
      | close s' =>
        obtain rfl : s' = w.session := hown
        rw [act_close hw] at h
        cases h
      | call s' c =>
        obtain rfl : s' = w.session := hown
        by_cases hc : c = .commit
        · rw [hc, act_commit hw] at h
          cases h
        by_cases hr : c = .rollback
        · rw [hr, act_rollback hw] at h
          cases h
        obtain ⟨_, _, hact⟩ := act_own hw hc hr
        rw [hact] at h
        obtain rfl := Option.some.inj h
        rfl
    · rw [act_other hw hown, hw] at h
      exact .inr ⟨w, rfl, congrArg Writer.session (Option.some.inj h)⟩

/-- Nobody begins a transaction for somebody else. -/
theorem Others.idle (h : Others s st log st') (hs : st.inTransaction s = false) :
    st'.inTransaction s = false := by
  obtain ⟨hlog, hreplays⟩ := h
  induction log generalizing st with
  | nil => exact (Replays.nil st).unique hreplays ▸ hs
  | cons e rest ih =>
    obtain ⟨-, hrest⟩ := hreplays.cons
    refine ih ?_ (fun e he => hlog e (.tail _ he)) hrest
    refine Bool.eq_false_iff.mpr fun hin => ?_
    obtain ⟨w', hw', rfl⟩ := Shared.inTransaction_iff.mp hin
    obtain hown | ⟨w, hw, he⟩ := Shared.writer_act hw'
    · exact hlog e (.head _) hown.symm
    · rw [Shared.inTransaction_iff.mpr ⟨w, hw, he⟩] at hs
      cases hs

end Store

/-! ## A program among others -/

/-- A step of session `s` that is answered: its entry in the history, if it has one, and the store
after it. -/
def Store.Shared.Taken (s : SessionId) (st : Shared) :
    (e : Effect) → e.Reply → List Entry → Shared → Prop
  | .call s' c, r, own, st' =>
    s' = s ∧ st.call s c = (.answered r, st') ∧ own = [.called s c (.answered r)]
  | .inTransaction s', r, own, st' => s' = s ∧ r = st.inTransaction s ∧ own = [] ∧ st' = st
  | _, _, _, _ => False

/-- How a step is answered inside a transaction of session `s`, and the working copy after it. -/
def Store.Tables.Answers (s : SessionId) (t : Tables) : (e : Effect) → e.Reply → Tables → Prop
  | .call s' (.read q), r, t' => s' = s ∧ r = t.answer q ∧ t' = t
  | .call s' (.write w), r, t' =>
    s' = s ∧ ((t.apply w = .ok t' ∧ r = .ok ()) ∨ ∃ e, t.apply w = .error e ∧ r = .error e ∧ t' = t)
  | .inTransaction s', r, t' => s' = s ∧ r = true ∧ t' = t
  | _, _, _ => False

namespace Program

variable {α β : Type} {s : SessionId} {st st' : Shared} {log : List Entry} {t t' : Tables}

/-- What a program of session `s` comes to among other sessions: its answer, the history of all acts
and the store after it. A step under a limit may be cut short, whatever the limit is. -/
def Among (s : SessionId) : Program α → Shared → List Entry → α → Shared → Prop
  | done a, st, log, b, st' => b = a ∧ Others s st log st'
  | ask e k, st, log, b, st' => ∃ before st₁ r own st₂ rest, Others s st before st₁ ∧
    st₁.Taken s e r own st₂ ∧ (k r).Among s st₂ rest b st' ∧ log = before ++ (own ++ rest)
  | askBy _ e k, st, log, b, st' => ∃ before st₁ r own st₂ rest, Others s st before st₁ ∧
    ((r = none ∧ own = [] ∧ st₂ = st₁) ∨ ∃ a, r = some a ∧ st₁.Taken s e a own st₂) ∧
    (k r).Among s st₂ rest b st' ∧ log = before ++ (own ++ rest)

/-- What a program of session `s` comes to inside a transaction, from one working copy to another,
if it neither begins nor ends one. -/
def Yields (s : SessionId) : Program α → Tables → α → Tables → Prop
  | done a, t, b, t' => b = a ∧ t' = t
  | ask e k, t, b, t' => ∃ r t₁, t.Answers s e r t₁ ∧ (k r).Yields s t₁ b t'
  | askBy _ _ _, _, _, _ => False

/-! ### Sequences -/

theorem among_bind {p : Program α} {f : α → Program β} {b : β}
    (h : (p.bind f).Among s st log b st') : ∃ a log₁ st₁ log₂, p.Among s st log₁ a st₁ ∧
      (f a).Among s st₁ log₂ b st' ∧ log = log₁ ++ log₂ := by
  induction p generalizing st log with
  | done a => exact ⟨a, [], st, log, ⟨rfl, others_nil⟩, h, rfl⟩
  | ask e k ih =>
    obtain ⟨before, st₁, r, own, st₂, rest, hbefore, htaken, hk, rfl⟩ := h
    obtain ⟨a, log₁, st₃, log₂, hp, hf, rfl⟩ := ih r hk
    exact ⟨a, _, st₃, log₂, ⟨before, st₁, r, own, st₂, log₁, hbefore, htaken, hp, rfl⟩, hf,
      by simp only [List.append_assoc]⟩
  | askBy l e k ih =>
    obtain ⟨before, st₁, r, own, st₂, rest, hbefore, htaken, hk, rfl⟩ := h
    obtain ⟨a, log₁, st₃, log₂, hp, hf, rfl⟩ := ih r hk
    exact ⟨a, _, st₃, log₂, ⟨before, st₁, r, own, st₂, log₁, hbefore, htaken, hp, rfl⟩, hf,
      by simp only [List.append_assoc]⟩

theorem Yields.bind {p : Program α} {f : α → Program β} {a : α} {b : β} {t₁ : Tables}
    (hp : p.Yields s t a t₁) (hf : (f a).Yields s t₁ b t') : (p.bind f).Yields s t b t' := by
  induction p generalizing t with
  | done c =>
    obtain ⟨rfl, rfl⟩ := hp
    exact hf
  | ask e k ih =>
    obtain ⟨r, t₂, hanswer, hk⟩ := hp
    exact ⟨r, t₂, hanswer, ih r hk⟩
  | askBy l e k _ => exact hp.elim

/-- Others may act before the first step of a program. -/
theorem Among.after {p : Program α} {b : α} {st₁ : Shared} {log₁ : List Entry}
    (hothers : Others s st log₁ st₁) (h : p.Among s st₁ log b st') :
    p.Among s st (log₁ ++ log) b st' := by
  cases p with
  | done a => exact ⟨h.1, hothers.append h.2⟩
  | ask e k | askBy l e k =>
    obtain ⟨before, st₂, r, own, st₃, rest, hbefore, htaken, hk, rfl⟩ := h
    exact ⟨log₁ ++ before, st₂, r, own, st₃, rest, hothers.append hbefore, htaken, hk,
      by simp only [List.append_assoc]⟩

theorem Among.bind {p : Program α} {f : α → Program β} {a : α} {b : β} {st₁ : Shared}
    {log' : List Entry} (hp : p.Among s st log a st₁) (hf : (f a).Among s st₁ log' b st') :
    (p.bind f).Among s st (log ++ log') b st' := by
  induction p generalizing st log with
  | done c =>
    obtain ⟨rfl, hothers⟩ := hp
    exact hf.after hothers
  | ask e k ih | askBy l e k ih =>
    obtain ⟨before, st₂, r, own, st₃, rest, hbefore, htaken, hk, rfl⟩ := hp
    exact ⟨before, st₂, r, own, st₃, rest ++ log', hbefore, htaken, ih r hk,
      by simp only [List.append_assoc]⟩

theorem replays_taken {e : Effect} {r : e.Reply} {own : List Entry} (h : st.Taken s e r own st') :
    Replays st own st' := by
  cases e with
  | call s' c =>
    obtain ⟨rfl, hcall, rfl⟩ := h
    have hact : st.act (.call s' c) = (.called s' c (.answered r), st') := by
      simp only [Shared.act, hcall]
    have := Replays.single st (.call s' c)
    rwa [hact] at this
  | inTransaction s' =>
    obtain ⟨-, -, rfl, rfl⟩ := h
    exact Replays.nil st'
  | openSession | closeSession _ | checkHealth | policy _ | wait _ | elapsed | readClock
  | freshId _ _ | freshSalt | count _ | note _ => exact h.elim

/-- The acts of all sessions lead to the recorded history. -/
theorem Among.replays {p : Program α} {b : α} (h : p.Among s st log b st') :
    Replays st log st' := by
  induction p generalizing st log with
  | done a => exact h.2.2
  | ask e k ih =>
    obtain ⟨before, st₁, r, own, st₂, rest, hbefore, htaken, hk, rfl⟩ := h
    exact hbefore.2.append ((replays_taken htaken).append (ih r hk))
  | askBy l e k ih =>
    obtain ⟨before, st₁, r, own, st₂, rest, hbefore, hcut, hk, rfl⟩ := h
    obtain ⟨rfl, rfl, rfl⟩ | ⟨a, rfl, htaken⟩ := hcut
    · exact hbefore.2.append (ih none hk)
    · exact hbefore.2.append ((replays_taken htaken).append (ih (some a) hk))

/-! ### Inside a transaction -/

/-- A step inside a transaction is answered from the working copy, and does not end the
transaction. -/
theorem taken_inside (hw : st.writer = some ⟨s, t⟩) {e : Effect} {r r' : e.Reply} {own : List Entry}
    {t' : Tables} (hanswer : t.Answers s e r t') (htaken : st.Taken s e r' own st') :
    r' = r ∧ st' = ⟨st.tables, some ⟨s, t'⟩⟩ ∧ fate s own = none := by
  obtain ⟨tables, _⟩ := st
  obtain rfl := hw
  cases e with
  | call s' c =>
    cases c with
    | read q =>
      obtain ⟨rfl, rfl, rfl⟩ := hanswer
      obtain ⟨-, hcall, rfl⟩ := htaken
      simp only [Shared.call, Shared.view, ↓reduceIte, Prod.mk.injEq, Attempt.answered.injEq] at hcall
      obtain ⟨rfl, rfl⟩ := hcall
      exact ⟨rfl, rfl, by simp [fate, Entry.ending]⟩
    | write w =>
      obtain ⟨rfl, hanswer⟩ := hanswer
      obtain ⟨-, hcall, rfl⟩ := htaken
      obtain ⟨hw, rfl⟩ | ⟨e, hw, rfl, rfl⟩ := hanswer <;>
      · simp only [Shared.call, Shared.view, Shared.put, hw, ↓reduceIte, Prod.mk.injEq,
          Attempt.answered.injEq] at hcall
        obtain ⟨rfl, rfl⟩ := hcall
        exact ⟨rfl, rfl, by simp [fate, Entry.ending]⟩
    | begin | commit | rollback => exact hanswer.elim
  | inTransaction s' =>
    obtain ⟨rfl, rfl, rfl⟩ := hanswer
    obtain ⟨-, rfl, rfl, rfl⟩ := htaken
    exact ⟨by simp [Shared.inTransaction], rfl, rfl⟩
  | openSession | closeSession _ | checkHealth | policy _ | wait _ | elapsed | readClock
  | freshId _ _ | freshSalt | count _ | note _ => exact hanswer.elim

/-- Inside a transaction a program comes to what it yields, whatever the others try. -/
theorem Yields.among {p : Program α} {a b : α} (hp : p.Yields s t a t')
    (hw : st.writer = some ⟨s, t⟩) (h : p.Among s st log b st') :
    b = a ∧ st' = ⟨st.tables, some ⟨s, t'⟩⟩ ∧ fate s log = none := by
  induction p generalizing t st log with
  | done c =>
    obtain ⟨rfl, rfl⟩ := hp
    obtain ⟨rfl, hothers⟩ := h
    obtain ⟨rfl, hfate⟩ := hothers.holding hw rfl
    exact ⟨rfl, by rw [← hw], hfate⟩
  | ask e k ih =>
    obtain ⟨r, t₁, hanswer, hk⟩ := hp
    obtain ⟨before, st₁, r', own, st₂, rest, hbefore, htaken, h, rfl⟩ := h
    obtain ⟨rfl, hfate₁⟩ := hbefore.holding hw rfl
    obtain ⟨rfl, rfl, hfate₂⟩ := taken_inside hw hanswer htaken
    obtain ⟨rfl, rfl, hfate₃⟩ := ih r' hk rfl h
    refine ⟨rfl, rfl, ?_⟩
    rw [fate_append, fate_append, hfate₁, hfate₂, hfate₃]
    rfl
  | askBy l e k _ => exact hp.elim

/-- A step inside a transaction can be taken. -/
theorem exists_taken (hw : st.writer = some ⟨s, t⟩) {e : Effect} {r : e.Reply} {t' : Tables}
    (h : t.Answers s e r t') : ∃ own, st.Taken s e r own ⟨st.tables, some ⟨s, t'⟩⟩ := by
  obtain ⟨tables, _⟩ := st
  obtain rfl := hw
  cases e with
  | call s' c =>
    refine ⟨[.called s' c (.answered r)], ?_⟩
    cases c with
    | read q =>
      obtain ⟨rfl, rfl, rfl⟩ := h
      exact ⟨rfl, by simp only [Shared.call, Shared.view, ↓reduceIte], rfl⟩
    | write w =>
      obtain ⟨rfl, ⟨hw, rfl⟩ | ⟨e, hw, rfl, rfl⟩⟩ := h <;>
        exact ⟨rfl, by simp only [Shared.call, Shared.view, Shared.put, hw, ↓reduceIte], rfl⟩
    | begin | commit | rollback => exact h.elim
  | inTransaction s' =>
    obtain ⟨rfl, rfl, rfl⟩ := h
    exact ⟨[], rfl, by simp [Shared.inTransaction], rfl, rfl⟩
  | openSession | closeSession _ | checkHealth | policy _ | wait _ | elapsed | readClock
  | freshId _ _ | freshSalt | count _ | note _ => exact h.elim

/-- Inside a transaction a program can come to what it yields, under a limit as without one. -/
theorem Yields.exists_among {p : Program α} {a : α} (hp : p.Yields s t a t')
    (hw : st.writer = some ⟨s, t⟩) :
    ∃ log, p.Among s st log a ⟨st.tables, some ⟨s, t'⟩⟩ ∧
      ∀ l, (p.within l).Among s st log (some a) ⟨st.tables, some ⟨s, t'⟩⟩ := by
  induction p generalizing t st with
  | done c =>
    obtain ⟨rfl, rfl⟩ := hp
    rw [← hw]
    exact ⟨[], ⟨rfl, others_nil⟩, fun _ => ⟨rfl, others_nil⟩⟩
  | ask e k ih =>
    obtain ⟨r, t₁, hanswer, hk⟩ := hp
    obtain ⟨own, htaken⟩ := exists_taken hw hanswer
    have hw₁ : Shared.writer ⟨st.tables, some ⟨s, t₁⟩⟩ = some ⟨s, t₁⟩ := rfl
    obtain ⟨rest, hrest, hlimited⟩ := ih r hk hw₁
    refine ⟨own ++ rest, ⟨[], st, r, own, _, rest, others_nil, htaken, hrest, rfl⟩, fun l => ?_⟩
    rw [within]
    exact ⟨[], st, some r, own, _, rest, others_nil, .inr ⟨r, rfl, htaken⟩, hlimited l, rfl⟩
  | askBy l e k _ => exact hp.elim

/-- Under a limit it comes to that, or is cut short with the transaction still open. -/
theorem Yields.limited {p : Program α} {a : α} {b : Option α} {l : Nat} (hp : p.Yields s t a t')
    (hw : st.writer = some ⟨s, t⟩) (h : (p.within l).Among s st log b st') :
    fate s log = none ∧ ∃ t₁, st' = ⟨st.tables, some ⟨s, t₁⟩⟩ ∧
      (b = none ∨ b = some a ∧ t₁ = t') := by
  induction p generalizing t st log with
  | done c =>
    obtain ⟨rfl, rfl⟩ := hp
    obtain ⟨rfl, hothers⟩ := h
    obtain ⟨rfl, hfate⟩ := hothers.holding hw rfl
    exact ⟨hfate, t', by rw [← hw], .inr ⟨rfl, rfl⟩⟩
  | ask e k ih =>
    obtain ⟨r, t₁, hanswer, hk⟩ := hp
    rw [within] at h
    obtain ⟨before, st₁, r', own, st₂, rest, hbefore, hcut, h, rfl⟩ := h
    obtain ⟨rfl, hfate₁⟩ := hbefore.holding hw rfl
    obtain ⟨rfl, rfl, rfl⟩ | ⟨r', rfl, htaken⟩ := hcut
    · obtain ⟨rfl, hothers⟩ := h
      obtain ⟨rfl, hfate⟩ := hothers.holding hw rfl
      refine ⟨?_, t, by rw [← hw], .inl rfl⟩
      rw [fate_append, hfate₁, List.nil_append, hfate]
      rfl
    · obtain ⟨rfl, rfl, hfate₂⟩ := taken_inside hw hanswer htaken
      obtain ⟨hfate₃, t₂, rfl, hend⟩ := ih r' hk rfl h
      refine ⟨?_, t₂, rfl, hend⟩
      rw [fate_append, fate_append, hfate₁, hfate₂, hfate₃]
      rfl
  | askBy l e k _ => exact hp.elim

end Program

end AccessAdmin
