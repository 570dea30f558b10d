import GuardedFlow.Proofs.Lowering.Parts

/-!
# Jumps and joins

What the steps do that move from one block to another: asking for the block that starts at an
instruction, entering an instruction, jumping, and closing the stream. Each has one lemma that lists
everything a successful run can have done.
-/

namespace GuardedFlow

namespace Lower

variable {s t : LoweringState}

/-- The run of a step that asks for a block. -/
theorem blockAt_run (index : Nat) (s : LoweringState) :
    blockAt index s =
      .ok (s.draft.blockAt index).1 { s with draft := (s.draft.blockAt index).2 } := rfl

/-- The run of the check that a jump stays in the stream. -/
theorem checkTarget_run (target : Nat) (s : LoweringState) :
    checkTarget target s =
      (if s.draft.body.code.size ≤ target then fail (.targetOutside (positionText target))
        else pure () : Lower Unit) s := rfl

/-- The check of a target reads the state only. -/
theorem checkTarget_ok {target : Nat} (h : checkTarget target s = .ok () t) :
    t = s ∧ target < s.draft.body.code.size := by
  rw [checkTarget_run] at h
  split at h
  · cases h
  · cases h
    exact ⟨rfl, by omega⟩

/-- The open block is found without a change. -/
theorem currentBlock_ok {block : BlockId} (h : currentBlock s = .ok block t) :
    t = s ∧ s.openBlock = some block := by
  rw [currentBlock_run] at h
  cases hopen : s.openBlock with
  | none =>
    rw [hopen] at h
    cases h
  | some open' =>
    rw [hopen] at h
    cases h
    exact ⟨rfl, rfl⟩

/-- What an unconditional jump does. -/
theorem goto_ok {target : Nat} (h : goto target s = .ok () t) :
    target < s.draft.body.code.size ∧ ∃ block other d, s.openBlock = some block ∧
      s.draft.Located target other d ∧
      t = { s with
        draft := { d with graph := d.graph.link block other none }
        openBlock := none } := by
  obtain ⟨_, u, hcheck, h₁⟩ := bind_ok h
  obtain ⟨rfl, hlt⟩ := checkTarget_ok hcheck
  obtain ⟨block, v, hblock, h₂⟩ := bind_ok h₁
  obtain ⟨rfl, hopen⟩ := currentBlock_ok hblock
  obtain ⟨other, w, hother, h₃⟩ := bind_ok h₂
  rw [blockAt_run] at hother
  cases hother
  obtain ⟨_, x, hconnect, h₄⟩ := bind_ok h₃
  obtain ⟨rfl, -⟩ := connect_ok hconnect
  cases h₄
  exact ⟨hlt, block, _, _, hopen, v.draft.blockAt_located target, rfl⟩

/-- What the second edge of a conditional jump does. -/
theorem fallThrough_ok {source : BlockId} {guard : Expr} {next : Option Nat}
    (h : fallThrough source guard next s = .ok () t) :
    (next = none ∧ t = { s with
        draft := { s.draft with graph := s.draft.graph.link source Flow.sink (some guard.not) }
        openBlock := none }) ∨
      ∃ index rest d, next = some index ∧ s.draft.Located index rest d ∧ t = { s with
        draft := { d with graph := d.graph.link source rest (some guard.not) }
        openBlock := some rest } := by
  cases next with
  | none =>
    obtain ⟨_, u, hconnect, h⟩ := bind_ok h
    obtain ⟨rfl, -⟩ := connect_ok hconnect
    cases h
    exact .inl ⟨rfl, rfl⟩
  | some index =>
    obtain ⟨rest, u, hrest, h⟩ := bind_ok h
    rw [blockAt_run] at hrest
    cases hrest
    obtain ⟨_, v, hconnect, h⟩ := bind_ok h
    obtain ⟨rfl, -⟩ := connect_ok hconnect
    cases h
    exact .inr ⟨index, _, _, rfl, s.draft.blockAt_located index, rfl⟩

/-- What a conditional jump does after its condition was lowered. -/
theorem branch_ok {index target : Nat} {condition : Value} (h : branch index condition target s = .ok () t) :
    target < s.draft.body.code.size ∧ ∃ guard u, operand condition s = .ok guard u ∧
      (u.draft.body.next? index = some target ∧ t = u ∨
        u.draft.body.next? index ≠ some target ∧ ∃ block other d, u.openBlock = some block ∧
          u.draft.Located target other d ∧
          (u.draft.body.next? index = none ∧ t = { u with
              draft := { d with graph :=
                (d.graph.link block other (some guard)).link block Flow.sink (some guard.not) }
              openBlock := none } ∨
            ∃ next rest e, u.draft.body.next? index = some next ∧
              Draft.Located { d with graph := d.graph.link block other (some guard) } next rest e ∧
              t = { u with
                draft := { e with graph := e.graph.link block rest (some guard.not) }
                openBlock := some rest })) := by
  obtain ⟨_, s', hcheck, h₁⟩ := bind_ok (branch_eq index condition target ▸ h)
  obtain ⟨rfl, hlt⟩ := checkTarget_ok hcheck
  obtain ⟨guard, u, hguard, h₂⟩ := bind_ok h₁
  refine ⟨hlt, guard, u, hguard, ?_⟩
  by_cases hnext : u.draft.body.next? index = some target
  · rw [fork_next hnext] at h₂
    cases h₂
    exact .inl ⟨hnext, rfl⟩
  · refine .inr ⟨hnext, ?_⟩
    cases hopen : u.openBlock with
    | none =>
      rw [fork_closed hnext hopen] at h₂
      cases h₂
    | some block =>
      rw [fork_open hnext hopen] at h₂
      obtain ⟨other, v, hother, h₃⟩ := bind_ok h₂
      rw [blockAt_run] at hother
      cases hother
      obtain ⟨_, w, hconnect, h₄⟩ := bind_ok h₃
      obtain ⟨rfl, -⟩ := connect_ok hconnect
      exact ⟨block, _, _, rfl, u.draft.blockAt_located target, fallThrough_ok h₄⟩

/-- What leading the open block to another one does. -/
theorem leadTo_ok {source other : BlockId} (h : leadTo source other s = .ok () t) :
    t = { s with
      draft := { s.draft with graph := s.draft.graph.link source other none }
      openBlock := some other } := by
  obtain ⟨_, u, hconnect, h⟩ := bind_ok h
  obtain ⟨rfl, -⟩ := connect_ok hconnect
  cases h
  rfl

/-- What going on from the open block does: nothing, or it leads the block to the one that starts at the
instruction. -/
theorem proceed_ok {oracle : PredecessorOracle} {index : Nat} {source : BlockId}
    (h : proceed oracle index source (s.draft.blockAt? index) s = .ok () t) :
    (t = s ∧ (s.draft.blockAt? index = some source ∨
      s.draft.blockAt? index = none ∧ oracle.count index ≤ 1)) ∨
      ∃ other d, s.draft.Located index other d ∧ s.draft.blockAt? index ≠ some source ∧
        (s.draft.blockAt? index = none → 1 < oracle.count index) ∧
        t = { s with
          draft := { d with graph := d.graph.link source other none }
          openBlock := some other } := by
  cases hstarts : s.draft.blockAt? index with
  | some other =>
    rw [hstarts, proceed] at h
    split at h
    case isTrue hother =>
      exact .inr ⟨other, _, .old other hstarts, by simpa using hother, by simp, leadTo_ok h⟩
    case isFalse hother =>
      cases h
      exact .inl ⟨rfl, .inl (congrArg some (Decidable.not_not.mp hother))⟩
  | none =>
    rw [hstarts, proceed] at h
    split at h
    case isTrue hcount =>
      obtain ⟨other, u, hother, h⟩ := bind_ok h
      rw [blockAt_run] at hother
      cases hother
      exact .inr ⟨_, _, s.draft.blockAt_located index, by simp, fun _ => hcount, leadTo_ok h⟩
    case isFalse hcount =>
      cases h
      exact .inl ⟨rfl, .inr ⟨rfl, Nat.le_of_not_lt hcount⟩⟩

/-- What entering an instruction does: it opens the block that starts there if none is open, goes on
in the open block, or leads from the open block to the one that starts there. -/
theorem enter_ok {oracle : PredecessorOracle} {index : Nat} (h : enter oracle index s = .ok () t) :
    (s.openBlock = none ∧ ∃ block d, (s.draft.moveTo index).Located index block d ∧
        t = { s with draft := d, openBlock := some block }) ∨
      (∃ block, s.openBlock = some block ∧ t = { s with draft := s.draft.moveTo index } ∧
        (s.draft.blockAt? index = some block ∨
          s.draft.blockAt? index = none ∧ oracle.count index ≤ 1)) ∨
      ∃ block other d, s.openBlock = some block ∧ (s.draft.moveTo index).Located index other d ∧
        s.draft.blockAt? index ≠ some block ∧
        (s.draft.blockAt? index = none → 1 < oracle.count index) ∧
        t = { s with
          draft := { d with graph := d.graph.link block other none }
          openBlock := some other } := by
  cases hopen : s.openBlock with
  | none =>
    rw [enter_closed hopen] at h
    obtain ⟨block, u, hblock, h⟩ := bind_ok h
    rw [blockAt_run] at hblock
    cases hblock
    cases h
    exact .inl ⟨rfl, _, _, Draft.blockAt_located _ index, rfl⟩
  | some block =>
    rw [enter_open hopen] at h
    rcases proceed_ok (s := { s with draft := s.draft.moveTo index }) h with
      ⟨rfl, hstarts⟩ | ⟨other, d, hlocated, hother, hcount, rfl⟩
    · exact .inr (.inl ⟨block, rfl, by rw [← hopen], hstarts⟩)
    · exact .inr (.inr ⟨block, other, d, rfl, hlocated, hother, hcount, rfl⟩)

/-- What closing a stream does: the open block, or the entry of an empty stream, leads to the sink. -/
theorem close_ok {body : Body} (h : close body s = .ok () t) :
    (body.code.isEmpty ∧ t = { s with
        draft := { s.draft with graph := s.draft.graph.link Flow.entry Flow.sink none } }) ∨
      (¬ body.code.isEmpty ∧ s.openBlock = none ∧ t = s) ∨
      (¬ body.code.isEmpty ∧ ∃ block, s.openBlock = some block ∧ t = { s with
        draft := { s.draft with graph := s.draft.graph.link block Flow.sink none }
        openBlock := none }) := by
  unfold close at h
  by_cases hempty : body.code.isEmpty
  · left
    simp only [hempty, if_true] at h
    obtain ⟨rfl, -⟩ := connect_ok h
    exact ⟨hempty, rfl⟩
  · right
    simp only [hempty] at h
    obtain ⟨u, v, hget, h⟩ := bind_ok h
    cases hget
    cases hopen : s.openBlock with
    | none =>
      left
      simp only [hopen] at h
      cases h
      exact ⟨hempty, rfl, rfl⟩
    | some block =>
      right
      simp only [hopen] at h
      obtain ⟨_, w, hset, h⟩ := bind_ok h
      cases hset
      obtain ⟨rfl, -⟩ := connect_ok h
      exact ⟨hempty, block, rfl, rfl⟩

end Lower

end GuardedFlow
