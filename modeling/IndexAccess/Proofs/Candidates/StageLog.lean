import IndexAccess.Proofs.Candidates.Effect

/-!
# The log of a selection

A selection logs each change of a stage when it makes it: that of the winner, then those of the
other members in their order, each followed by those of its branches.  What has ended before is
passed over by the log as it is by the selection, at both levels.

So the log can be compared with the members before and after the selection: it has one event for
each stage that differs, under the name of the path and with both stages, and no other.
-/

namespace IndexAccess

def LogEvent.isStageChange : LogEvent → Bool
  | .stageChanged .. => true
  | .noSeek .. | .columnBound .. | .seekExtended .. | .pathSelected .. | .estimatesRejected .. =>
    false

theorem Stage.ne_discarded_of_live {stage : Stage} (h : stage.isFinal = false) :
    stage ≠ .discarded := by
  rintro rfl
  cases h

/-! ## Changes of stages -/

/-- A stage under the name by which it is logged. -/
abbrev NamedStage := String × Stage

namespace NamedStage

/-- The event for a stage that has become another one. -/
def change (source target : NamedStage) : List LogEvent :=
  if source.2 = target.2 then [] else [.stageChanged source.1 source.2 target.2]

def comesToDiscard (source target : NamedStage) : Bool :=
  source.2 != .discarded && target.2 == .discarded

def changes (former later : List NamedStage) : List LogEvent :=
  (former.zip later).flatMap fun pair ↦ pair.1.change pair.2

def discards (former later : List NamedStage) : Nat :=
  (former.zip later).countP fun pair ↦ pair.1.comesToDiscard pair.2

theorem changes_cons (source target : NamedStage) (former later : List NamedStage) :
    changes (source :: former) (target :: later) = source.change target ++ changes former later :=
  rfl

theorem changes_self (stages : List NamedStage) : changes stages stages = [] := by
  induction stages with
  | nil => rfl
  | cons stage stages ih =>
    rw [changes_cons, ih, List.append_nil]
    exact if_pos rfl

theorem discards_self (stages : List NamedStage) : discards stages stages = 0 := by
  unfold discards
  rw [← List.map_id stages, List.zip_map', List.countP_map, List.countP_eq_zero]
  intro stage _
  simp [comesToDiscard]

theorem discards_cons (source target : NamedStage) (former later : List NamedStage) :
    discards (source :: former) (target :: later) =
      discards former later + (source.comesToDiscard target).toNat := by
  unfold discards
  rw [List.zip_cons_cons, List.countP_cons]
  cases source.comesToDiscard target <;> rfl

theorem isStageChange_of_mem_changes {former later : List NamedStage} {event : LogEvent}
    (h : event ∈ changes former later) : event.isStageChange = true := by
  obtain ⟨pair, -, hevent⟩ := List.mem_flatMap.mp h
  unfold change at hevent
  split at hevent
  · cases hevent
  · rw [List.mem_singleton.mp hevent]
    rfl

end NamedStage

namespace Branch

def named (branch : Branch) : NamedStage := (branch.render, branch.stage)

theorem change_ended (branch : Branch) : branch.named.change branch.ended.named = branch.endLog := by
  unfold NamedStage.change ended endLog named
  cases hfinal : branch.stage.isFinal with
  | true => simp
  | false => simp [Stage.ne_discarded_of_live hfinal]

theorem length_endLog (branch : Branch) :
    branch.endLog.length = (branch.named.comesToDiscard branch.ended.named).toNat := by
  unfold NamedStage.comesToDiscard ended endLog named
  cases hstage : branch.stage <;> simp [Stage.isFinal, hstage] <;> rfl

theorem changes_map_ended (branches : List Branch) :
    NamedStage.changes (branches.map named) (branches.map fun branch ↦ branch.ended.named) =
      branches.flatMap endLog := by
  unfold NamedStage.changes
  rw [List.zip_map', List.flatMap_map]
  exact List.flatMap_congr fun branch _ ↦ branch.change_ended

theorem discards_map_ended (branches : List Branch) :
    NamedStage.discards (branches.map named) (branches.map fun branch ↦ branch.ended.named) =
      (branches.flatMap endLog).length := by
  induction branches with
  | nil => rfl
  | cons branch branches ih =>
    rw [List.map_cons, List.map_cons, NamedStage.discards_cons, ih, List.flatMap_cons,
      List.length_append, length_endLog, Nat.add_comm]

end Branch

namespace Path

/-- The stages in a path: its own, then those of its branches. -/
def stages (path : Path) : List NamedStage :=
  (path.render, path.stage) :: path.branches.map Branch.named

/-- The changes between two states of a path, in the order of its stages. -/
def changes (former later : Path) : List LogEvent :=
  NamedStage.changes former.stages later.stages

/-- How many have come to be discarded out of a path and its branches. -/
def discards (former later : Path) : Nat := NamedStage.discards former.stages later.stages

theorem stages_ended_of_live {path : Path} (h : path.stage.isFinal = false) :
    path.ended.stages =
      (path.ended.render, .discarded) :: path.branches.map fun branch ↦ branch.ended.named := by
  have hended := path.passedOver_ended
  unfold stages
  rw [hended.discarded h, hended.branches h, List.map_map]
  rfl

/-- What is logged when a path is ended is what changes in it. -/
theorem changes_ended (path : Path) : path.changes path.ended = path.endLog := by
  unfold changes endLog
  cases hfinal : path.stage.isFinal with
  | true =>
    rw [path.passedOver_ended.kept hfinal, NamedStage.changes_self]
    rfl
  | false =>
    have hmoved : NamedStage.change (path.render, path.stage) (path.ended.render, .discarded) =
        [.stageChanged path.render path.stage .discarded] :=
      if_neg (Stage.ne_discarded_of_live hfinal)
    rw [stages_ended_of_live hfinal, stages, NamedStage.changes_cons, hmoved,
      Branch.changes_map_ended]
    rfl

theorem discards_ended (path : Path) : path.discards path.ended = path.endLog.length := by
  unfold discards endLog
  cases hfinal : path.stage.isFinal with
  | true =>
    rw [path.passedOver_ended.kept hfinal, NamedStage.discards_self]
    rfl
  | false =>
    have hmoved : NamedStage.comesToDiscard (path.render, path.stage)
        (path.ended.render, .discarded) = true := by
      simpa [NamedStage.comesToDiscard] using Stage.ne_discarded_of_live hfinal
    rw [stages_ended_of_live hfinal, stages, NamedStage.discards_cons, hmoved,
      Branch.discards_map_ended]
    rfl

theorem changes_winner {path : Path} (h : path.stage = .rangesBuilt) :
    path.changes (Candidates.winner path) =
      [.stageChanged path.render .rangesBuilt .selected] := by
  have hmoved : NamedStage.change (path.render, path.stage) (path.render, .selected) =
      [.stageChanged path.render .rangesBuilt .selected] := by
    rw [h]
    rfl
  calc path.changes (Candidates.winner path)
    _ = NamedStage.change (path.render, path.stage) (path.render, .selected) ++
        NamedStage.changes (path.branches.map Branch.named) (path.branches.map Branch.named) := rfl
    _ = _ := by rw [hmoved, NamedStage.changes_self, List.append_nil]

theorem discards_winner (path : Path) : path.discards (Candidates.winner path) = 0 := by
  have hkept : NamedStage.comesToDiscard (path.render, path.stage) (path.render, .selected) =
      false := Bool.and_false _
  calc path.discards (Candidates.winner path)
    _ = NamedStage.discards (path.branches.map Branch.named) (path.branches.map Branch.named) +
        (NamedStage.comesToDiscard (path.render, path.stage) (path.render, .selected)).toNat :=
      NamedStage.discards_cons ..
    _ = 0 := by rw [hkept, NamedStage.discards_self]; rfl

end Path

namespace Candidates

variable {candidates : Candidates} {position : Nat} {winner : Path}

/-! ## The log -/

/-- The stage changes of a selection, as they are logged and as they are seen in the members. -/
structure SelectionLog (before after : List Path) (position : Nat) (winner : Path)
    (log : List LogEvent) : Prop where
  course : log = .stageChanged winner.render .rangesBuilt .selected ::
    (before.eraseIdx position).flatMap Path.endLog ++
      [.pathSelected position
        ((before.eraseIdx position).countP fun member ↦ !member.stage.isFinal) winner.render]
  changed : ∃ former, before[position]? = some former ∧
    log.filter LogEvent.isStageChange = former.changes winner ++
      ((before.eraseIdx position).zip (after.eraseIdx position)).flatMap fun pair ↦
        pair.1.changes pair.2
  count : log.countP LogEvent.isStageChange =
    1 + ((before.zip after).map fun pair ↦ pair.1.discards pair.2).sum

/-! ### The members other than the winner -/

theorem flatMap_endLog_set {members : List Path} {path : Path}
    (h : members[position]? = some path) :
    (members.set position (Candidates.winner path)).flatMap Path.endLog =
      (members.eraseIdx position).flatMap Path.endLog := by
  obtain ⟨before, after, -, hothers, hset⟩ := split_at_position h
  rw [hset, hothers, List.flatMap_append, List.flatMap_cons, List.flatMap_append]
  rfl

theorem countP_live_set {members : List Path} {path : Path} (h : members[position]? = some path) :
    ((members.set position (Candidates.winner path)).countP fun member ↦ !member.stage.isFinal) =
      (members.eraseIdx position).countP fun member ↦ !member.stage.isFinal := by
  obtain ⟨before, after, -, hothers, hset⟩ := split_at_position h
  rw [hset, hothers, List.countP_append, List.countP_cons, List.countP_append]
  rfl

theorem eraseIdx_afterSelection (candidates : Candidates) (position : Nat) (path : Path) :
    (candidates.afterSelection position path).eraseIdx position =
      (candidates.members.eraseIdx position).map Path.ended := by
  unfold afterSelection
  rw [List.eraseIdx_map, List.eraseIdx_set_eq]

theorem flatMap_changes_ended (members : List Path) :
    ((members.zip (members.map Path.ended)).flatMap fun pair ↦ pair.1.changes pair.2) =
      members.flatMap Path.endLog := by
  induction members with
  | nil => rfl
  | cons member members ih =>
    rw [List.map_cons, List.zip_cons_cons, List.flatMap_cons, List.flatMap_cons, ih,
      Path.changes_ended]

theorem sum_discards_ended (members : List Path) :
    ((members.zip (members.map Path.ended)).map fun pair ↦ pair.1.discards pair.2).sum =
      (members.flatMap Path.endLog).length := by
  induction members with
  | nil => rfl
  | cons member members ih =>
    rw [List.map_cons, List.zip_cons_cons, List.map_cons, List.sum_cons, ih, List.flatMap_cons,
      List.length_append, Path.discards_ended]

theorem sum_discards_set {members : List Path} {path : Path} (h : members[position]? = some path) :
    ((members.zip ((members.set position (Candidates.winner path)).map Path.ended)).map fun pair ↦
      pair.1.discards pair.2).sum = ((members.eraseIdx position).flatMap Path.endLog).length := by
  obtain ⟨before, after, hmembers, hothers, hset⟩ := split_at_position h
  have hsame : before.length = (before.map Path.ended).length := (List.length_map _).symm
  rw [hset, hothers, hmembers, List.map_append, List.map_cons, ended_winner,
    List.zip_append hsame, List.zip_cons_cons, List.map_append, List.map_cons, List.sum_append,
    List.sum_cons, Path.discards_winner, Nat.zero_add, sum_discards_ended, sum_discards_ended,
    List.flatMap_append, List.length_append]

theorem selectionLog_of_selectable {path : Path} (h : candidates.Selectable position path) :
    SelectionLog candidates.members (candidates.afterSelection position path) position
      (Candidates.winner path) (candidates.select position).log := by
  let ends := (candidates.members.eraseIdx position).flatMap Path.endLog
  have hcourse : (candidates.select position).log =
      .stageChanged path.render .rangesBuilt .selected :: ends ++
        [.pathSelected position
          ((candidates.members.eraseIdx position).countP fun member ↦ !member.stage.isFinal)
          (Candidates.winner path).render] := by
    rw [select_of_selectable h, flatMap_endLog_set h.member, countP_live_set h.member]
  have hends : ends.filter LogEvent.isStageChange = ends := by
    rw [List.filter_eq_self]
    intro event hevent
    obtain ⟨member, -, hmember⟩ := List.mem_flatMap.mp hevent
    rw [← Path.changes_ended] at hmember
    exact NamedStage.isStageChange_of_mem_changes hmember
  have hchanged : (candidates.select position).log.filter LogEvent.isStageChange =
      .stageChanged path.render .rangesBuilt .selected :: ends := by
    rw [hcourse, List.filter_append, List.filter_cons_of_pos rfl, hends]
    exact List.append_nil _
  refine ⟨hcourse, ⟨path, h.member, ?_⟩, ?_⟩
  · rw [hchanged, Path.changes_winner h.built, eraseIdx_afterSelection, flatMap_changes_ended]
    rfl
  · rw [List.countP_eq_length_filter, hchanged, List.length_cons, Nat.add_comm]
    exact congrArg (1 + ·) (sum_discards_set h.member).symm

/-- The log of any selection that succeeds.  The winner is named first, then each other member that
has not ended, with its branches that have not; then the selection is, with the number of these
members.  The events are the changes between the members before and after the selection, so there
is one more of them than members and branches that have come to be discarded. -/
theorem selection_logged (hok : (candidates.select position).result = .ok winner) :
    let outcome := candidates.select position
    SelectionLog candidates.members outcome.state.members position winner outcome.log := by
  obtain ⟨error, hrefused⟩ | ⟨path, hpath, hresult, hstate⟩ := candidates.select_cases position
  · rw [hrefused] at hok
    cases hok
  · obtain rfl : Candidates.winner path = winner := Except.ok.inj (hresult.symm.trans hok)
    have hmembers : (candidates.select position).state.members =
        candidates.afterSelection position path := congrArg Candidates.members hstate
    have hlog := selectionLog_of_selectable hpath
    rwa [← hmembers] at hlog

theorem selection_logged_readAmongOthers :
    let outcome := readAmongOthers.select 2
    outcome.result = .ok (Candidates.winner builtRead) ∧
      SelectionLog readAmongOthers.members outcome.state.members 2 (Candidates.winner builtRead)
        outcome.log := by
  intro outcome
  have hok : outcome.result = .ok (Candidates.winner builtRead) := rfl
  exact ⟨hok, selection_logged hok⟩

/-- The branch and the member that had ended before are not named. -/
example : (readAmongOthers.select 2).log.map LogEvent.fields =
    [[("path", "table"), ("from", "ranges_built"), ("to", "selected")],
      [("path", "index_merge[2]"), ("from", "created"), ("to", "discarded")],
      [("path", "table"), ("from", "created"), ("to", "discarded")],
      [("position", "2"), ("discarded", "1"), ("winner", "table")]] := by
  decide

end Candidates

end IndexAccess
