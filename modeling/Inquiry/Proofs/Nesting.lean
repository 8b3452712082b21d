import Inquiry.Proofs.Reserve

/-!
# How deep questions nest

A conversation that waits is nested in as many questions as there are
conversations parked below it, and the one in focus in as many as are parked at
all (`Machine.Stacked`). So the depth that conversations carry along is the height
of the stack. It does not change when an older conversation is addressed again:
depth counts the questions that wait, not the way that leads to a node.

Every one of these questions has left a unit of budget with its asker
(`Parked.Backs`), so a budget is also a bound for the height. With a budget that
does not exceed the depth allowed, the limit on depth is never met.

* `Machine.stacked_step`, `Machine.Reaches.stacked`: depths count what waits, in every
  state;
* `Respondent.length_parked_le`: the stack is no higher than the budget and the limit on
  depth allow, and questions do not nest too deep where the budget is no more than that
  limit.
-/

namespace Inquiry

/-- Each conversation that waits is nested in those below it. -/
def Parked.Stacked {σ : Type} : List (Parked σ) → Prop
  | [] => True
  | p :: ps => p.depth = ps.length ∧ Parked.Stacked ps

/-- Depths count the conversations that wait, and there are no more than allowed. -/
structure Machine.Stacked {σ : Type} (s : Settings) (m : Machine σ) : Prop where
  asking : ∀ c, m.focus = .asking c → c.depth = m.parked.length
  parked : Parked.Stacked m.parked
  length_le : m.parked.length ≤ s.maxDepth

/-- Under all that waits, there is a unit of budget for each. -/
theorem Parked.Backs.add_length_le {σ : Type} {s : Settings} {limit held depth : Nat}
    {ps : List (Parked σ)} (h : Parked.Backs s limit held depth ps) (hps : Parked.Stacked ps) :
    held + ps.length ≤ limit := by
  have hle := h.add_depth_le
  cases ps with
  | nil => exact Nat.le_trans (Nat.le_add_right _ _) hle
  | cons p ps =>
    obtain ⟨-, -, rfl, -, -⟩ := h
    rwa [hps.1] at hle

namespace Machine

variable {R : Respondent} {s : Settings} {limit : Nat} {m m' : Machine R.State}

theorem Backed.held_add_length_le (hm : m.Backed s limit) (hs : m.Stacked s) :
    m.focus.held + m.parked.length ≤ limit := by
  obtain ⟨_, hb⟩ := hm.exists_backs
  exact hb.add_length_le hs.parked

/-- A step keeps depths in step with the stack. -/
theorem stacked_step (h : m.step R s = .next m') (hm : m.Stacked s) : m'.Stacked s := by
  cases rule_iff.2 h with
  | outOfBudget ha hb => exact ⟨fun _ hf => (nomatch hf), hm.parked, hm.length_le⟩
  | shown hx hs =>
    have hc := hm.asking _ hx.focus
    refine ⟨fun _ hf => ?_, hm.parked, hm.length_le⟩
    cases hf
    exact hc
  | ended hx hs => exact ⟨fun _ hf => (nomatch hf), hm.parked, hm.length_le⟩
  | asked hx hd =>
    have hc := hm.asking _ hx.focus
    refine ⟨fun _ hf => ?_, ⟨hc, hm.parked⟩, ?_⟩
    · cases hf
      exact congrArg Nat.succ hc
    · rwa [hc] at hd
  | @settled a p ps hf hp hg hs =>
    obtain ⟨-, hparked, hle⟩ := hm
    rw [hp] at hparked hle
    refine ⟨fun _ hf => ?_, hparked.2, Nat.le_of_succ_le hle⟩
    cases hf
    exact hparked.1

theorem stacked_startAt (s : Settings) (n : Node R.State) (message : Message (Node R.State))
    (budget supply : Nat) (record : Record) :
    (R.startAt n message budget 0 supply record).Stacked s where
  asking _ hf := by
    cases hf
    rfl
  parked := trivial
  length_le := Nat.zero_le _

/-- In every state of a conversation that is nested in nothing, depths count what waits. -/
theorem Reaches.stacked {n : Node R.State} {message : Message (Node R.State)}
    {budget supply : Nat} {record : Record}
    (h : Reaches R s (R.startAt n message budget 0 supply record) m) : m.Stacked s :=
  h.keeps (fun _ _ => stacked_step) (stacked_startAt s n message budget supply record)

/-- A question that nests too deep is asked out of a conversation that has some budget, at the
    depth allowed, unless it is the respondent that says so. -/
theorem exists_of_step_tooDeep {r : Run (Answer R.State)} {depth bound : Nat}
    (hR : ∀ q o e, (R.respond q o m.record).1 ≠ .failed e) (h : m.step R s = .done r)
    (ho : r.outcome = .failed (.tooDeep depth bound)) :
    ∃ c, m.focus = .asking c ∧ 0 < c.budget ∧ s.maxDepth ≤ c.depth := by
  cases rule_iff.2 h with
  | failed hf ht hr => exact absurd (congrArg Prod.fst hr) (hR _ _ _)
  | misled ha hb he =>
    cases ho
    cases Command.cited_of_execute he
  | tooDeep hx hd => exact ⟨_, hx.focus, Nat.lt_of_lt_of_le hx.pos hx.left_le, Nat.le_of_lt_succ hd⟩
  | _ => cases ho

end Machine

/-- In every state of an inquiry by a policy, or an oracle, the conversation in focus is nested
    in as many questions as there are conversations that wait, its depth and its budget are
    no more than the budget at the start, and no more conversations wait than this budget and
    the limit on depth allow. Questions do not nest too deep if the budget does not exceed this
    limit. -/
theorem Respondent.length_parked_le (oracle : Oracle) (history : Transcript) (s : Settings)
    (root : String) (budget : Nat) (record : Record) :
    (∀ m, Machine.Reaches (ofOracle oracle history) s
        ((ofOracle oracle history).startAt (.root 0 history) (Message.parse root) budget 0 1
          record) m →
      (∀ c, m.focus = .asking c →
        m.parked.length = c.depth ∧ c.depth + c.budget ≤ budget) ∧
      m.parked.length ≤ min budget s.maxDepth) ∧
    (budget ≤ s.maxDepth → ∀ depth bound,
      ((ofOracle oracle history).inquire s root budget record).outcome ≠
        .failed (.tooDeep depth bound)) := by
  have hstate : ∀ m, Machine.Reaches (ofOracle oracle history) s
      ((ofOracle oracle history).startAt (.root 0 history) (Message.parse root) budget 0 1
        record) m →
      m.Stacked s ∧ m.focus.held + m.parked.length ≤ budget := by
    intro m hm
    have hs := hm.stacked
    exact ⟨hs, hm.backed.held_add_length_le hs⟩
  constructor
  · intro m hm
    obtain ⟨hs, hle⟩ := hstate m hm
    refine ⟨fun c hf => ?_, Nat.le_min.2 ⟨Nat.le_of_add_left_le hle, hs.length_le⟩⟩
    have hc := hs.asking c hf
    rw [hf, ← hc, Nat.add_comm] at hle
    exact ⟨hc.symm, hle⟩
  · intro hb depth bound h
    rw [inquire] at h
    split at h
    · cases h
    have h := Outcome.eq_failed_of_map h
    rw [converseAfresh, converse, if_neg (Nat.not_lt_zero _)] at h
    obtain ⟨m, hm, hd⟩ := Machine.exists_reaches_done (ofOracle oracle history) s _
    obtain ⟨c, hf, hpos, hdepth⟩ := Machine.exists_of_step_tooDeep
      (fun q o e => respond_ofOracle_ne_failed oracle history q o m.record e) hd h
    -- The conversation has some budget, so its depth is below the budget at the start.
    obtain ⟨hs, hle⟩ := hstate m hm
    rw [hf, ← hs.asking c hf] at hle
    change c.budget + c.depth ≤ budget at hle
    omega

end Inquiry
