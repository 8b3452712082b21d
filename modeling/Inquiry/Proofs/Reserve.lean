import Inquiry.Run

/-!
# What a question leaves to its asker

A question is granted less than its asker has, and whoever answers it holds no
more than was granted. So under all that is granted, at least one unit is kept
by each asker: it pays for the surcharge, and it bounds how deep questions nest,
because every level takes a unit of the budget below it (`Parked.Backs`).

Valid settings charge at most that unit, so nothing is ever spent that is not
there.

* `Machine.backed_step`, `Machine.Reaches.backed`: what is granted is backed in every
  state;
* `Machine.respond_of_step_overspent`: the machine overspends nothing;
* `Machine.Continues.levels_le`: while a conversation goes on, its budget only falls.
-/

namespace Inquiry

/-- The budget that the focus holds. -/
def Focus.held {σ : Type} : Focus σ → Nat
  | .asking c => c.budget
  | .answered a => a.remaining

/-! ## Backing -/

section

variable {σ : Type}

/-- What is held on top, at some depth, is backed by the conversations that wait: each holds
    more than it has granted, and the last one holds no more than `limit`, less its depth. -/
def Parked.Backs (s : Settings) (limit : Nat) : (held depth : Nat) → List (Parked σ) → Prop
  | held, depth, [] => held + depth ≤ limit
  | held, depth, p :: ps =>
    held ≤ p.granted ∧ p.granted < p.budget ∧ depth = p.depth + 1 ∧ p.turns ≤ s.maxTurns ∧
      Parked.Backs s limit p.budget p.depth ps

/-- The focus is backed. -/
def Machine.Backed (s : Settings) (limit : Nat) (m : Machine σ) : Prop :=
  match m.focus with
  | .asking c => c.turns ≤ s.maxTurns ∧ Parked.Backs s limit c.budget c.depth m.parked
  | .answered a => ∃ depth, Parked.Backs s limit a.remaining depth m.parked

namespace Parked.Backs

variable {s : Settings} {limit held depth : Nat} {ps : List (Parked σ)}

theorem mono {held' : Nat} (h : Backs s limit held depth ps) (hle : held' ≤ held) :
    Backs s limit held' depth ps := by
  cases ps with
  | nil => exact Nat.le_trans (Nat.add_le_add_right hle _) h
  | cons p ps => exact ⟨Nat.le_trans hle h.1, h.2⟩

/-- Every level takes a unit of the budget. -/
theorem add_depth_le (h : Backs s limit held depth ps) : held + depth ≤ limit := by
  induction ps generalizing held depth with
  | nil => exact h
  | cons p ps ih =>
    obtain ⟨hle, hlt, rfl, -, h⟩ := h
    have := ih h
    omega

/-- Each conversation that waits is itself backed by those below it. -/
theorem of_mem (h : Backs s limit held depth ps) {p : Parked σ} (hp : p ∈ ps) :
    p.granted < p.budget ∧ p.budget + p.depth ≤ limit ∧ p.turns ≤ s.maxTurns := by
  induction ps generalizing held depth with
  | nil => cases hp
  | cons q ps ih =>
    obtain ⟨-, hlt, -, ht, h⟩ := h
    rcases List.mem_cons.1 hp with rfl | hp
    · exact ⟨hlt, h.add_depth_le, ht⟩
    · exact ih h hp

end Parked.Backs

end

namespace Machine

variable {R : Respondent} {s : Settings} {limit : Nat} {m m' : Machine R.State}

theorem Backed.exists_backs (h : m.Backed s limit) :
    ∃ depth, Parked.Backs s limit m.focus.held depth m.parked := by
  rw [Backed] at h
  cases hf : m.focus with
  | asking c =>
    rw [hf] at h
    exact ⟨c.depth, h.2⟩
  | answered a =>
    rw [hf] at h
    exact h

theorem Backed.asking {c : Conversation R.State} (h : m.Backed s limit)
    (hf : m.focus = .asking c) : Parked.Backs s limit c.budget c.depth m.parked := by
  rw [Backed, hf] at h
  exact h.2

theorem Backed.answered {a : Answer R.State} {p : Parked R.State} {ps : List (Parked R.State)}
    (h : m.Backed s limit) (hf : m.focus = .answered a) (hp : m.parked = p :: ps) :
    a.remaining ≤ p.granted ∧ p.granted < p.budget ∧ p.turns ≤ s.maxTurns ∧
      Parked.Backs s limit p.budget p.depth ps := by
  rw [Backed, hf, hp] at h
  obtain ⟨_, hle, hlt, -, ht, h⟩ := h
  exact ⟨hle, hlt, ht, h⟩

/-- A step keeps what is granted backed. -/
theorem backed_step (h : m.step R s = .next m') (hm : m.Backed s limit) :
    m'.Backed s limit := by
  cases rule_iff.2 h with
  | outOfBudget ha hb => exact ⟨_, (hm.asking ha.focus).mono (Nat.zero_le _)⟩
  | shown hx hs =>
    exact ⟨hx.turns, (hm.asking hx.focus).mono (Nat.le_trans (Nat.sub_le _ _) hx.left_le)⟩
  | ended hx hs =>
    exact ⟨_, (hm.asking hx.focus).mono (Nat.le_trans (Nat.sub_le _ _) hx.left_le)⟩
  | asked hx hd =>
    -- One level deeper, one unit less.
    exact ⟨Nat.zero_le _, Nat.le_refl _, hx.granted_lt, rfl, hx.turns,
      (hm.asking hx.focus).mono hx.left_le⟩
  | settled hf hp hg hs =>
    obtain ⟨-, -, ht, hps⟩ := hm.answered hf hp
    exact ⟨ht, hps.mono (Nat.sub_le _ _)⟩

theorem backed_startAt (n : Node R.State) (message : Message (Node R.State))
    (budget depth supply : Nat) (record : Record) :
    (R.startAt n message budget depth supply record).Backed s (budget + depth) :=
  ⟨Nat.zero_le _, Nat.le_refl _⟩

/-- In every state of a conversation, the focus is backed by its budget and its depth at the
    start. -/
theorem Reaches.backed {n : Node R.State} {message : Message (Node R.State)}
    {budget depth supply : Nat} {record : Record}
    (h : Reaches R s (R.startAt n message budget depth supply record) m) :
    m.Backed s (budget + depth) :=
  h.keeps (fun _ _ => backed_step) (backed_startAt n message budget depth supply record)

/-! ## Nothing is overspent -/

theorem Executed.spending_le {c : Conversation R.State} {r : Response} {q : R.State}
    {record : Record} {b : Nat} {effect : Effect R.State}
    (h : Executed R s m c r q record b effect) (hs : s.Valid) : effect.spending ≤ b := by
  have hc := Nat.le_trans hs.commandCost h.pos
  cases effect with
  | shown o spending =>
    obtain rfl := Command.spending_of_execute_shown h.execute
    exact hc
  | ended value spending =>
    obtain rfl := Command.spending_of_execute_ended h.execute
    exact hc
  | delegated recipient message granted => exact Nat.zero_le _

/-- Under valid settings, only a respondent can say that something was overspent. -/
theorem respond_of_step_overspent {r : Run (Answer R.State)} {budget spending : Nat}
    (hs : s.Valid) (hm : m.Backed s limit) (h : m.step R s = .done r)
    (ho : r.outcome = .failed (.overspent budget spending)) :
    ∃ q o, (R.respond q o m.record).1 = .failed (.overspent budget spending) := by
  cases rule_iff.2 h with
  | noTurn _ _ => cases ho
  | failed hf ht hr =>
    cases ho
    exact ⟨_, _, congrArg Prod.fst hr⟩
  | unavailable _ _ _ => cases ho
  | misled ha hb he =>
    cases ho
    cases Command.cited_of_execute he
  | overspent hx hlt => exact absurd hlt (Nat.not_lt.2 (hx.spending_le hs))
  | tooDeep _ _ => cases ho
  | concluded _ _ => cases ho
  | overdrawn hf hp hg => exact absurd hg (Nat.not_lt.2 (hm.answered hf hp).1)
  | overcharged hf hp hg hlt =>
    -- The unit kept pays for the surcharge.
    obtain ⟨_, hkept, -, -⟩ := hm.answered hf hp
    have := hs.askSurcharge
    omega

/-! ## Levels -/

/-- The budgets of all conversations, the outermost first. -/
def levels {σ : Type} (m : Machine σ) : List Nat :=
  m.parked.reverse.map (·.budget) ++ [m.focus.held]

/-- Steps during which the conversation at level `k` goes on. -/
inductive Continues (R : Respondent) (s : Settings) (k : Nat) :
    Machine R.State → Machine R.State → Prop
  | refl (m : Machine R.State) (hk : k < m.levels.length) : Continues R s k m m
  | step {m m' m'' : Machine R.State} (hk : k < m.levels.length) (h : m.step R s = .next m')
      (r : Continues R s k m' m'') : Continues R s k m m''

theorem getElem?_append_le {l l₁ l₂ : List Nat} {h h' k b b' : Nat} (hle : h' ≤ h)
    (hl : l₁ = [] ∨ l₂ = []) (hb : (l ++ h :: l₁)[k]? = some b)
    (hb' : (l ++ h' :: l₂)[k]? = some b') : b' ≤ b := by
  rcases Nat.lt_trichotomy k l.length with hk | rfl | hk
  · rw [List.getElem?_append_left hk] at hb hb'
    rw [hb] at hb'
    exact Nat.le_of_eq (Option.some.inj hb').symm
  · rw [List.getElem?_append_right (Nat.le_refl _), Nat.sub_self] at hb hb'
    obtain rfl := Option.some.inj hb
    obtain rfl := Option.some.inj hb'
    exact hle
  · -- One of the lists has no entry there.
    obtain ⟨j, rfl⟩ := Nat.exists_eq_add_of_lt hk
    rw [List.getElem?_append_right (by omega), Nat.add_assoc, Nat.add_sub_cancel_left] at hb hb'
    rcases hl with rfl | rfl
    · cases hb
    · cases hb'

/-- No budget grows in a step. -/
theorem levels_step {k b b' : Nat} (h : m.step R s = .next m')
    (hb : m.levels[k]? = some b) (hb' : m'.levels[k]? = some b') : b' ≤ b := by
  rw [levels] at hb hb'
  cases rule_iff.2 h with
  | outOfBudget ha _ =>
    rw [ha.focus] at hb
    exact getElem?_append_le (Nat.zero_le _) (.inl rfl) hb hb'
  | shown hx _ =>
    rw [hx.focus] at hb
    exact getElem?_append_le (Nat.le_trans (Nat.sub_le _ _) hx.left_le) (.inl rfl) hb hb'
  | ended hx _ =>
    rw [hx.focus] at hb
    exact getElem?_append_le (Nat.le_trans (Nat.sub_le _ _) hx.left_le) (.inl rfl) hb hb'
  | asked hx _ =>
    -- The level on top is new; the one below it is the asker's.
    rw [hx.focus] at hb
    rw [List.reverse_cons, List.map_append, List.append_assoc] at hb'
    exact getElem?_append_le hx.left_le (.inl rfl) hb hb'
  | settled hf hp _ _ =>
    rw [hf, hp, List.reverse_cons, List.map_append, List.append_assoc] at hb
    exact getElem?_append_le (Nat.sub_le _ _) (.inr rfl) hb hb'

theorem Continues.lt_length {k : Nat} (h : Continues R s k m m') : k < m.levels.length := by
  cases h with
  | refl _ hk => exact hk
  | step hk _ _ => exact hk

/-- One more step, at the end. -/
theorem Continues.tail {m'' : Machine R.State} {k : Nat} (h : Continues R s k m m')
    (hst : m'.step R s = .next m'') (hk : k < m''.levels.length) : Continues R s k m m'' := by
  induction h with
  | refl m hm => exact .step hm hst (.refl m'' hk)
  | step hm h _ ih => exact .step hm h (ih hst)

/-- While a conversation goes on, its budget only falls. -/
theorem Continues.levels_le {k b b' : Nat} (h : Continues R s k m m')
    (hb : m.levels[k]? = some b) (hb' : m'.levels[k]? = some b') : b' ≤ b := by
  induction h generalizing b with
  | refl => exact Nat.le_of_eq (Option.some.inj (hb.symm.trans hb')).symm
  | step hk hst r ih =>
    have hj := List.getElem?_eq_getElem r.lt_length
    exact Nat.le_trans (ih hj hb') (levels_step hst hb hj)

end Machine

end Inquiry
