import AccessAdmin.Store.Shared

/-!
# Histories of sessions

Sessions act on shared tables in any order: they call the store, or they end. A history records
every act with what came of it.

* `Shared.serve`: the log of some acts, and the store that they lead to.
* `Replays`: the acts of a log lead to that very log, from one store to another.
* `fate`: how the transaction of a session ends.
* `Replays.exclusive`: what a transaction means for the committed tables and for the other sessions,
  while it is open.
-/

namespace AccessAdmin.Store

/-- What a session does: it calls the store, or it ends. -/
inductive Act where
  | call (s : SessionId) (c : Call)
  | close (s : SessionId)
deriving DecidableEq, Repr

/-- An act with what came of it. -/
inductive Entry where
  | called (s : SessionId) (c : Call) (outcome : Attempt (Except StoreError c.Reply))
  | closed (s : SessionId)

/-- The session that acts. -/
def Act.session : Act → SessionId
  | call s _ => s
  | close s => s

/-- The act that an entry records. -/
def Entry.act : Entry → Act
  | called s c _ => .call s c
  | closed s => .close s

/-- Whether a call reads or writes rows. -/
def Call.isData : Call → Bool
  | read _ | write _ => true
  | begin | commit | rollback => false

/-- How a transaction ends: with its commit, or with nothing left of it. -/
inductive Ending where
  | committed
  | abandoned
deriving DecidableEq, Repr

/-- How an entry ends the transaction of a session, if it does. -/
def Entry.ending (s : SessionId) : Entry → Option Ending
  | closed s' => if s' = s then some .abandoned else none
  | called _ _ .blocked => none
  | called s' c (.answered r) =>
    if s' = s ∧ r.toBool then
      match c with
      | .commit => some .committed
      | .rollback => some .abandoned
      | _ => none
    else none

/-- How the transaction of a session ends in a log, if it does. -/
def fate (s : SessionId) (log : List Entry) : Option Ending := log.findSome? (Entry.ending s)

namespace Shared

/-- One act of a session. -/
def act (st : Shared) : Act → Entry × Shared
  | .call s c => (.called s c (st.call s c).1, (st.call s c).2)
  | .close s => (.closed s, st.close s)

/-- The log of some acts, one after the other, and the store that they lead to. -/
def serve (st : Shared) : List Act → List Entry × Shared
  | [] => ([], st)
  | a :: rest => ((st.act a).1 :: ((st.act a).2.serve rest).1, ((st.act a).2.serve rest).2)

@[simp] theorem act_act (st : Shared) (a : Act) : (st.act a).1.act = a := by
  cases a <;> rfl

theorem serve_append (st : Shared) (xs ys : List Act) :
    st.serve (xs ++ ys) =
      ((st.serve xs).1 ++ ((st.serve xs).2.serve ys).1, ((st.serve xs).2.serve ys).2) := by
  induction xs generalizing st with
  | nil => rfl
  | cons a rest ih => simp only [List.cons_append, serve, ih]

/-- A log records the acts in their order. -/
theorem map_act_serve (st : Shared) (acts : List Act) : (st.serve acts).1.map Entry.act = acts := by
  induction acts generalizing st with
  | nil => rfl
  | cons a rest ih => simp only [serve, List.map_cons, act_act, ih]

/-! ## While a transaction is open -/

section Open

variable {st : Shared} {w : Writer}

theorem inTransaction_iff {s : SessionId} :
    st.inTransaction s ↔ ∃ w, st.writer = some w ∧ w.session = s := by
  simp [inTransaction, Option.any_eq_true]

/-- The session that has the transaction works on its copy of the tables. -/
theorem act_own (hw : st.writer = some w) {c : Call} (hc : c ≠ .commit) (hr : c ≠ .rollback) :
    ∃ r t, st.act (.call w.session c) =
      (.called w.session c (.answered r), ⟨st.tables, some ⟨w.session, t⟩⟩) := by
  obtain ⟨tables, _⟩ := st
  obtain rfl := hw
  cases c with
  | begin => exact ⟨.error (.transaction "transaction already open"), w.working, by simp [act, call]⟩
  | commit => exact absurd rfl hc
  | rollback => exact absurd rfl hr
  | read r => exact ⟨w.working.answer r, w.working, by simp [act, call, view]⟩
  | write x =>
    cases ha : w.working.apply x with
    | error e => exact ⟨.error e, w.working, by simp [act, call, view, ha]⟩
    | ok t => exact ⟨.ok (), t, by simp [act, call, view, put, ha]⟩

theorem act_commit (hw : st.writer = some w) :
    st.act (.call w.session .commit) =
      (.called w.session .commit (.answered (.ok ())), ⟨w.working, none⟩) := by
  simp only [act, call, hw, ↓reduceIte]

theorem act_rollback (hw : st.writer = some w) :
    st.act (.call w.session .rollback) =
      (.called w.session .rollback (.answered (.ok ())), ⟨st.tables, none⟩) := by
  simp [act, call, inTransaction, hw]

theorem act_close (hw : st.writer = some w) :
    st.act (.close w.session) = (.closed w.session, ⟨st.tables, none⟩) := by
  simp [act, close, inTransaction, hw]

/-- The other sessions change nothing. -/
theorem act_other (hw : st.writer = some w) {a : Act} (ha : a.session ≠ w.session) :
    (st.act a).2 = st := by
  cases a with
  | close s =>
    have hs : ¬w.session = s := fun h => ha h.symm
    simp [act, close, inTransaction, hw, hs]
  | call s c =>
    have hs : ¬w.session = s := fun h => ha h.symm
    cases c <;> simp [act, call, view, inTransaction, hw, hs]

/-- Their calls wait or are refused, those on rows wait. -/
theorem call_other (hw : st.writer = some w) {s : SessionId} (hs : s ≠ w.session) (c : Call) :
    (st.call s c).1 = .blocked ∨
      c.isData = false ∧ ∃ r, (st.call s c).1 = .answered r ∧ r.toBool = false := by
  have hs' : ¬w.session = s := fun h => hs h.symm
  cases c <;> simp [call, view, inTransaction, hw, hs', Call.isData, Except.toBool]

/-- Until its end a transaction stays open, and the committed tables stay as they are. -/
theorem holds {s : SessionId} (hs : st.inTransaction s) {a : Act}
    (ha : (st.act a).1.ending s = none) :
    (st.act a).2.inTransaction s ∧ (st.act a).2.tables = st.tables := by
  obtain ⟨w, hw, rfl⟩ := inTransaction_iff.mp hs
  by_cases hown : a.session = w.session
  · cases a with
    | close s =>
      obtain rfl := hown
      simp [act_close hw, Entry.ending] at ha
    | call s c =>
      obtain rfl := hown
      by_cases hc : c = .commit
      · subst hc
        simp [act_commit hw, Entry.ending, Except.toBool] at ha
      by_cases hr : c = .rollback
      · subst hr
        simp [act_rollback hw, Entry.ending, Except.toBool] at ha
      obtain ⟨r, t, hact⟩ := act_own hw hc hr
      rw [show st.act (.call _ c) = _ from hact]
      exact ⟨inTransaction_iff.mpr ⟨_, rfl, rfl⟩, rfl⟩
  · rw [act_other hw hown]
    exact ⟨hs, rfl⟩

end Open

end Shared

/-! ## Replays -/

/-- The acts of a log lead from a store to that very log, and to a store. -/
def Replays (st : Shared) (log : List Entry) (st' : Shared) : Prop :=
  st.serve (log.map Entry.act) = (log, st')

namespace Replays

variable {st st₁ st₂ : Shared} {log log' : List Entry}

theorem nil (st : Shared) : Replays st [] st := rfl

theorem unique (h : Replays st log st₁) (h' : Replays st log st₂) : st₁ = st₂ :=
  congrArg Prod.snd (h.symm.trans h')

theorem append (h : Replays st log st₁) (h' : Replays st₁ log' st₂) :
    Replays st (log ++ log') st₂ := by
  unfold Replays at *
  rw [List.map_append, Shared.serve_append, h, h']

theorem split (h : Replays st (log ++ log') st₂) :
    ∃ st₁, Replays st log st₁ ∧ Replays st₁ log' st₂ := by
  unfold Replays at h
  rw [List.map_append, Shared.serve_append] at h
  obtain ⟨hlog, rfl⟩ := Prod.mk.inj h
  have hlen : (st.serve (log.map Entry.act)).1.length = log.length := by
    rw [← List.length_map Entry.act, Shared.map_act_serve, List.length_map]
  obtain ⟨h₁, h₂⟩ := List.append_inj hlog hlen
  exact ⟨_, Prod.ext h₁ rfl, Prod.ext h₂ rfl⟩

theorem cons {e : Entry} (h : Replays st (e :: log) st₂) :
    (st.act e.act).1 = e ∧ Replays (st.act e.act).2 log st₂ := by
  obtain ⟨hlog, rfl⟩ := Prod.mk.inj h
  obtain ⟨he, hlog⟩ := List.cons.inj hlog
  exact ⟨he, Prod.ext hlog rfl⟩

theorem serve (st : Shared) (acts : List Act) :
    Replays st (st.serve acts).1 (st.serve acts).2 := by
  rw [Replays, Shared.map_act_serve]

theorem single (st : Shared) (a : Act) : Replays st [(st.act a).1] (st.act a).2 := by
  simp [Replays, Shared.serve]

theorem concat (h : Replays st log st₁) (a : Act) :
    Replays st (log ++ [(st₁.act a).1]) (st₁.act a).2 :=
  h.append (single st₁ a)

/-- While a session has a transaction open, the committed tables do not change, and no other
session's call on rows succeeds. -/
theorem exclusive {s : SessionId} (h : Replays st log st₁) (hs : st.inTransaction s)
    (hf : fate s log = none) :
    st₁.inTransaction s ∧ st₁.tables = st.tables ∧
      ∀ s' c r, s' ≠ s → c.isData → Entry.called s' c r ∈ log → r = .blocked := by
  induction log generalizing st with
  | nil =>
    obtain rfl := (nil st).unique h
    exact ⟨hs, rfl, fun _ _ _ _ _ h => (List.not_mem_nil h).elim⟩
  | cons e rest ih =>
    obtain ⟨he, hrest⟩ := h.cons
    simp only [fate, List.findSome?_eq_none_iff, List.forall_mem_cons] at hf ih
    obtain ⟨hfe, hfrest⟩ := hf
    obtain ⟨hs', ht⟩ := Shared.holds hs (a := e.act) (by rw [he]; exact hfe)
    obtain ⟨hs₁, ht₁, hblocked⟩ := ih hrest hs' hfrest
    refine ⟨hs₁, ht₁.trans ht, fun s' c r hne hc hmem => ?_⟩
    rcases List.mem_cons.mp hmem with rfl | hmem
    · obtain ⟨w, hw, rfl⟩ := Shared.inTransaction_iff.mp hs
      obtain rfl : (st.call s' c).1 = r := by simpa [Shared.act, Entry.act] using he
      rcases Shared.call_other hw hne c with hb | ⟨hc', -⟩
      · exact hb
      · rw [hc] at hc'
        cases hc'
    · exact hblocked s' c r hne hc hmem

end Replays

end AccessAdmin.Store
