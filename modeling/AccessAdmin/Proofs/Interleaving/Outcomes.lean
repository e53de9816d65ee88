import AccessAdmin.Proofs.Interleaving.Courses

/-!
# What a crowd leaves in the engine

When all clients have ended well, a rule is as the tables want it, provided that one client had it to
itself at last: from when that client came to the store on nobody else touched the rule. Rules that
nobody touched are as they were.

* `Undisputed`: rules that one client had to itself at last.
* `Crowd.undisputed_of_clears`: clients that touch a rule one after the other do not dispute it.
* `Crowd.holds_iff`: undisputed rules are held just if the tables want them.
-/

namespace AccessAdmin

open Policy Program Dealing

/-- From when a client comes to the store on, nobody else touches a rule. -/
def Alone (log : List Turn) (x : Rule) (i : Nat) : Prop :=
  ∀ a later, (a :: later) <:+ log → a.client = i → a.sign = .store →
    ∀ b ∈ later, b.Touches x → b.client = i

/-- If a rule is touched at all, one of the clients that touch it has it to itself at last. -/
def Undisputed (log : List Turn) (x : Rule) : Prop :=
  (∃ b ∈ log, b.Touches x) → ∃ a ∈ log, a.Touches x ∧ Alone log x a.client

/-- A rule that only one client touches is undisputed. -/
theorem undisputed_of_one {log : List Turn} {x : Rule}
    (h : ∀ a ∈ log, ∀ b ∈ log, a.Touches x → b.Touches x → b.client = a.client) :
    Undisputed log x := by
  rintro ⟨a, ha, ht⟩
  exact ⟨a, ha, ht, fun _ _ hlater _ _ b hb ht' => h a ha b (hlater.subset (.tail _ hb)) ht ht'⟩

/-- When client `j` comes to the store, client `i` touches a rule no more. -/
def Clears (log : List Turn) (x : Rule) (i j : Nat) : Prop :=
  ∀ a later, (a :: later) <:+ log → a.client = j → a.sign = .store →
    ∀ b ∈ later, b.Touches x → b.client ≠ i

/-- A rule that is touched at all is touched for the last time. -/
theorem exists_last_touch {log : List Turn} {x : Rule} (h : ∃ b ∈ log, b.Touches x) :
    ∃ b later, (b :: later) <:+ log ∧ b.Touches x ∧ ∀ a ∈ later, ¬a.Touches x := by
  induction log with
  | nil =>
    obtain ⟨_, hb, -⟩ := h
    cases hb
  | cons a log ih =>
    by_cases hlater : ∃ b ∈ log, b.Touches x
    · obtain ⟨b, later, hsuffix, hrest⟩ := ih hlater
      exact ⟨b, later, hsuffix.trans (List.suffix_cons a log), hrest⟩
    · obtain ⟨b, hb, ht⟩ := h
      obtain rfl | hb := List.mem_cons.1 hb
      · exact ⟨b, log, List.suffix_rfl, ht, fun a ha hta => hlater ⟨a, ha, hta⟩⟩
      · exact (hlater ⟨b, hb, ht⟩).elim

namespace Crowd

variable {env : Surroundings} {names : Naming} {jobs : List Job} {c c' : Crowd} {i : Nat}
  {order : List Nat} {log : List Turn} {x : Rule}

/-- Only clients make moves. -/
theorem client_of_mem (h : play env order c = some (log, c')) {a : Turn} (ha : a ∈ log) :
    ∃ p, c.clients[a.client]? = some p := by
  induction order generalizing c log with
  | nil =>
    obtain ⟨rfl, -⟩ := Prod.mk.inj (Option.some.inj h)
    cases ha
  | cons i order ih =>
    obtain ⟨turn, c₁, log₁, hm, hrun, rfl⟩ := play_cons.1 h
    obtain ⟨p, e, p', hp, -, rfl, hp'⟩ := client_move hm
    rcases List.mem_cons.1 ha with rfl | ha
    · exact ⟨p, hp⟩
    · by_cases hi : a.client = i
      · exact ⟨p, hi ▸ hp⟩
      · exact (ih hrun ha).imp fun q hq => (clients_move hm hi).symm.trans hq

/-- The first move of a pass is a question to the store. -/
theorem sign_pass {s : Session} {f : Except ProjectionError Projection.Summary → Program Bool}
    {w w' : World MemoryStore} {e : Effect} {p : Program Bool}
    (h : World.move env ((Projection.all s).run.bind f) w = some (e, p, w')) : e.sign = .store := by
  obtain ⟨k, hk⟩ : ∃ k, (Projection.all s).run.bind f =
      .ask (.call s.id (.read (.queryRoles {} none))) k := ⟨_, rfl⟩
  rw [hk, World.move] at h
  split at h
  · obtain ⟨_, -, hx⟩ := Option.map_eq_some_iff.1 h
    exact (Prod.mk.inj hx).1 ▸ rfl
  · cases h

/-- What the job of a client is begins at the store. -/
theorem Running.sign_comes {j : Job} {p p' : Program Bool} {e : Effect} {w : World MemoryStore}
    (hc : c.Running env names jobs) (hcomes : j.Comes env p)
    (hm : World.move env p c.world = some (e, p', w)) : e.sign = .store := by
  cases j with
  | serve m users ctx =>
    obtain ⟨used, hsound, -⟩ := hc.sound
    exact (hcomes.move hc.rest ⟨used, hsound⟩ hm).1
  | reload =>
    obtain rfl | ⟨s, rfl⟩ := hcomes
    · cases hm
    · exact sign_pass hm

/-- A client that is alone with a rule after its transaction, and touches it, leaves it as the last
tables want it. -/
theorem Running.holds_iff_of_serve (henv : env.idName = names.name) {c₁ c₂ : Crowd} {m : Mutation}
    {p : Program Bool} {turn : Turn} (hc₁ : c₁.Running env names jobs)
    (hp : c₁.clients[i]? = some p) (hbegins : m.Begins env p)
    (hm : c₁.move env i = some (turn, c₂)) (h : play env order c₂ = some (log, c'))
    (hserved : c'.Served) (halone : ∀ b ∈ log, b.Touches x → b.client = i)
    (htouches : ∃ b ∈ log, b.client = i ∧ b.Touches x) :
    c'.world.engine.Holds x ↔ c'.world.tables.Warrants x := by
  have hc₂ := hc₁.move henv hm
  obtain ⟨q, e, p', hq, hmove, rfl, hp'⟩ := client_move hm
  obtain rfl : p = q := Option.some.inj (hp.symm.trans hq)
  obtain ⟨used, hsound, hcovers⟩ := hc₁.sound
  obtain ⟨-, -, -, htail, htransacts⟩ := hbegins.move hc₁.rest ⟨used, hsound⟩ hmove
  obtain ⟨hsame, hends⟩ := hc₂.settles henv h hserved
    (fun r hr => Option.some.inj (hp'.symm.trans hr) ▸ htail) halone
  obtain ⟨ds, hends⟩ := hends i p' hp' htail
  cases htransacts with
  | refused _ hno => exact (hno _ _ hends.traces).elim
  | committed hchanges hdeals =>
    have hsound' := hchanges.sound hsound (.of_named henv hcovers)
    have hhandles := (hdeals _ ds hends.traces).handles ⟨⟨_, hsound'⟩, hsame⟩
      (hchanges.apt hsound hsound')
    obtain ⟨d, hd, ht⟩ := hends.touches.2 htouches
    have hconcerns := not_not.1 fun hno =>
      Bool.false_ne_true ((hhandles.miss hno d hd).symm.trans ht)
    obtain ⟨htold, hleaves⟩ := hends.told rfl hhandles.accepted
    exact hleaves.symm.trans ((hhandles.hit hconcerns).2 _ htold)

/-- A pass that is alone with a rule leaves it as the last tables want it. -/
theorem Running.holds_iff_of_pass (henv : env.idName = names.name) {s : Session}
    (hc : c.Running env names jobs)
    (hp : c.clients[i]? = some ((Projection.all s).run.bind (closing s.id)))
    (h : play env order c = some (log, c')) (hserved : c'.Served)
    (halone : ∀ b ∈ log, b.Touches x → b.client = i) :
    c'.world.engine.Holds x ↔ c'.world.tables.Warrants x := by
  obtain ⟨-, hends⟩ := hc.settles henv h hserved
    (fun r hr => Option.some.inj (hp.symm.trans hr) ▸ tail_pass) halone
  obtain ⟨ds, hends⟩ := hends i _ hp tail_pass
  obtain ⟨summary, hpass⟩ := traces_closing_bind hends.traces
  obtain ⟨htold, hleaves⟩ := hends.told rfl (Projection.all_accepted hpass)
  exact hleaves.symm.trans (Projection.all_leaves_iff hpass htold)

/-- A client that has not called the engine before it comes to the store touches rules later. -/
theorem mem_later {turn a : Turn} {log₁ log₂ : List Turn}
    (hno : ∀ b ∈ log₁, b.client = i → ∀ k, b.sign ≠ .engine k) (hstore : turn.sign = .store)
    (ha : a ∈ log₁ ++ turn :: log₂) (hclient : a.client = i) (ht : a.Touches x) : a ∈ log₂ := by
  obtain ⟨k, hk, -⟩ := ht
  rcases List.mem_append.1 ha with ha | ha
  · exact (hno a ha hclient k hk).elim
  · rcases List.mem_cons.1 ha with rfl | ha
    · cases hstore.symm.trans hk
    · exact ha

/-- A client that is alone with a rule leaves it as the last tables want it, if it makes a pass or
touches the rule. -/
theorem Running.holds_iff_of_alone (henv : env.idName = names.name)
    (hc : c.Running env names jobs) (h : Crowd.play env order c = some (log, c'))
    (hserved : c'.Served) {p : Program Bool} {j : Job} (hp : c.clients[i]? = some p)
    (hahead : p.Ahead (j.Comes env)) (halone : Alone log x i)
    (hdoes : j = .reload ∨ ∃ a ∈ log, a.client = i ∧ a.Touches x) :
    c'.world.engine.Holds x ↔ c'.world.tables.Warrants x := by
  obtain ⟨log₁, c₁, p₁, turn, c₂, order₂, log₂, rfl, hno, hc₁, hp₁, hcomes, hm, hrun⟩ :=
    hc.comes henv h hserved hp hahead
  obtain ⟨q, e, p', hq, hmove, rfl, -⟩ := client_move hm
  obtain rfl : p₁ = q := Option.some.inj (hp₁.symm.trans hq)
  have hstore := hc₁.sign_comes hcomes hmove
  have hlater : ∀ b ∈ log₂, b.Touches x → b.client = i :=
    halone _ log₂ (List.suffix_append _ _) rfl hstore
  cases j with
  | serve m users ctx =>
    refine holds_iff_of_serve henv hc₁ hp₁ hcomes hm hrun hserved hlater ?_
    obtain hj | ⟨a, ha, hclient, htouches⟩ := hdoes
    · cases hj
    · exact ⟨a, mem_later hno hstore ha hclient htouches, hclient, htouches⟩
  | reload =>
    obtain rfl | ⟨s, rfl⟩ := hcomes
    · cases hmove
    · refine holds_iff_of_pass henv hc₁ hp₁ (play_cons.2 ⟨_, c₂, log₂, hm, hrun, rfl⟩) hserved ?_
      exact List.forall_mem_cons.2 ⟨fun _ => rfl, hlater⟩

/-- A client that ends well comes to the store before it touches any rule. -/
theorem Running.store_first (henv : env.idName = names.name) (hc : c.Running env names jobs)
    (h : Crowd.play env order c = some (log, c')) (hserved : c'.Served) {p : Program Bool}
    {j : Job} (hp : c.clients[i]? = some p) (hahead : p.Ahead (j.Comes env)) :
    ∃ a later, (a :: later) <:+ log ∧ a.client = i ∧ a.sign = .store ∧
      ∀ b ∈ log, b.client = i → ∀ x, b.Touches x → b ∈ later := by
  obtain ⟨log₁, c₁, p₁, turn, c₂, order₂, log₂, rfl, hno, hc₁, hp₁, hcomes, hm, -⟩ :=
    hc.comes henv h hserved hp hahead
  obtain ⟨q, e, p', hq, hmove, rfl, -⟩ := client_move hm
  obtain rfl : p₁ = q := Option.some.inj (hp₁.symm.trans hq)
  have hstore := hc₁.sign_comes hcomes hmove
  exact ⟨_, log₂, List.suffix_append _ _, rfl, hstore,
    fun b hb hclient x ht => mem_later hno hstore hb hclient ht⟩

variable {w : World MemoryStore}

theorem client_hosting {j : Job} (hj : jobs[i]? = some j) :
    (w.hosting jobs).clients[i]? = some j.program := by
  rw [World.hosting, List.getElem?_map, hj]
  rfl

/-- After a run in which all clients end well, an undisputed rule is held just if the tables want
it: one that was touched, one that a pass has looked at, and one that was right from the start. -/
theorem holds_iff (henv : env.idName = names.name) (hi : w.Idle)
    (hs : ∃ used, w.tables.Sound used ∧ names.Covers used w.tables) (he : w.engine.Orderly)
    (h : play env order (w.hosting jobs) = some (log, c)) (hserved : c.Served)
    (hx : Undisputed log x)
    (hstart : .reload ∈ jobs ∨ (w.engine.Holds x ↔ w.tables.Warrants x)) :
    c.world.engine.Holds x ↔ c.world.tables.Warrants x := by
  have hc : (w.hosting jobs).Running env names jobs := running_hosting hi hs he
  by_cases htouched : ∃ b ∈ log, b.Touches x
  · obtain ⟨a, ha, htouches, halone⟩ := hx htouched
    obtain ⟨p, hp⟩ := client_of_mem h ha
    obtain ⟨j, hj, -⟩ := hc.clients hp
    exact hc.holds_iff_of_alone henv h hserved (client_hosting hj) (j.ahead env) halone
      (.inr ⟨a, ha, rfl, htouches⟩)
  · have hno : ∀ a ∈ log, ¬a.Touches x := fun a ha ht => htouched ⟨a, ha, ht⟩
    obtain hreload | hagrees := hstart
    · obtain ⟨i, hi⟩ := List.mem_iff_getElem?.1 hreload
      refine hc.holds_iff_of_alone henv h hserved (client_hosting hi) (Job.reload.ahead env) ?_ (.inl rfl)
      exact fun a later hsuffix _ _ b hb ht => (hno b (hsuffix.subset (.tail _ hb)) ht).elim
    · -- Nobody is the client after the last one.
      have hnobody (p : Program Bool) (hp : (w.hosting jobs).clients[jobs.length]? = some p) :
          p.Tail := by
        simp only [World.hosting, List.getElem?_map, List.getElem?_length, Option.map_none,
          reduceCtorEq] at hp
      obtain ⟨hsame, -⟩ := hc.settles henv h hserved hnobody fun a ha ht => (hno a ha ht).elim
      rw [hc.holds_untouched henv h hno, ← hsame.warrants_iff]
      exact hagrees

/-- If of any two clients one is done with a rule when the other comes to the store, the rule is
undisputed. -/
theorem undisputed_of_clears (henv : env.idName = names.name) (hi : w.Idle)
    (hs : ∃ used, w.tables.Sound used ∧ names.Covers used w.tables) (he : w.engine.Orderly)
    (h : play env order (w.hosting jobs) = some (log, c)) (hserved : c.Served)
    (hclears : ∀ i j, i ≠ j → Clears log x i j ∨ Clears log x j i) : Undisputed log x := by
  intro htouched
  obtain ⟨last, rest, hlast, htouches, hrest⟩ := exists_last_touch htouched
  refine ⟨last, hlast.subset (.head _), htouches, fun a later hsuffix hclient hstore b hb ht => ?_⟩
  by_contra hne
  obtain hfirst | hsecond := hclears last.client b.client (Ne.symm hne)
  · -- The other client has come to the store before its own touch, and the last one is later.
    have hmem : b ∈ log := hsuffix.subset (.tail _ hb)
    obtain ⟨p, hp⟩ := client_of_mem h hmem
    have hc : (w.hosting jobs).Running env names jobs := running_hosting hi hs he
    obtain ⟨j, hj, -⟩ := hc.clients hp
    obtain ⟨a', later', hsuffix', hclient', hstore', htouch⟩ :=
      hc.store_first henv h hserved (client_hosting hj) (j.ahead env)
    have hb' : b ∈ later' := htouch b hmem rfl x ht
    have hlater' : later' <:+ log := (List.suffix_cons a' later').trans hsuffix'
    obtain hs | hs := List.suffix_or_suffix_of_suffix hlater' hlast
    · obtain rfl | hs := List.suffix_cons_iff.1 hs
      · exact hfirst a' _ hsuffix' hclient' hstore' last (.head _) htouches rfl
      · exact hrest b (hs.subset hb') ht
    · exact hfirst a' later' hsuffix' hclient' hstore' last (hs.subset (.head _)) htouches rfl
  · exact hsecond a later hsuffix hclient hstore b hb ht rfl

/-- The engine is in order after the run. -/
theorem orderly_engine (henv : env.idName = names.name) (hi : w.Idle)
    (hs : ∃ used, w.tables.Sound used ∧ names.Covers used w.tables) (he : w.engine.Orderly)
    (h : play env order (w.hosting jobs) = some (log, c)) : c.world.engine.Orderly :=
  ((running_hosting hi hs he).run henv h).engine

end Crowd

end AccessAdmin
