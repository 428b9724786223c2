/-
  SandboxFetch.Proofs.Report.Grouping — change sets grouped by component lose nothing.

  A report lists change sets by the id of their component. The list at an id has the change sets of
  that component in the order they came in, and there is a list for just the components that have
  some (`get?_group`); all lists together hold each change set once (`countSets_group`).
-/

import SandboxFetch.Proofs.Dict
import SandboxFetch.Report.Building

namespace SandboxFetch

/-! ## Maps of lists -/

namespace Dict

variable {α : Type}

def listAt (l : List α) : Option (List α) := if l.isEmpty then none else some l

theorem listAt_concat (l : List α) (x : α) : listAt (l ++ [x]) = some ((listAt l).getD [] ++ [x]) := by
  cases l <;> rfl

end Dict

/-! ## Grouping -/

namespace ChangeReport

def reportedOf (sets : List ChangeSet) (id : ItemId) : List ReportedChangeSet :=
  (sets.filter (·.component.id == id)).map .of

theorem reportedOf_append (sets more : List ChangeSet) (id : ItemId) :
    reportedOf (sets ++ more) id = reportedOf sets id ++ reportedOf more id := by
  unfold reportedOf
  rw [List.filter_append, List.map_append]

theorem group_concat (sets : List ChangeSet) (c : ChangeSet) :
    group (sets ++ [c]) = (group sets).push c.component.id (.of c) := by
  unfold group
  rw [List.foldl_append]
  rfl

theorem get?_group (sets : List ChangeSet) (id : ItemId) :
    (group sets).get? id = Dict.listAt (reportedOf sets id) := by
  induction sets using List.reverseRecOn with
  | nil => rfl
  | append_singleton sets c ih =>
    rw [group_concat, Dict.push, Dict.get?_update, reportedOf_append]
    by_cases same : c.component.id = id
    · have one : reportedOf [c] id = [.of c] := by simp [reportedOf, same]
      rw [if_pos same.symm, one, Dict.listAt_concat, ← ih, same]
    · have none : reportedOf [c] id = [] := by simp [reportedOf, same]
      rw [if_neg (Ne.symm same), none, List.append_nil, ih]

theorem countSets_group (sets : List ChangeSet) : countSets (group sets) = sets.length := by
  induction sets using List.reverseRecOn with
  | nil => rfl
  | append_singleton sets c ih =>
    rw [group_concat, List.length_append, ← ih]
    exact Dict.length_flatten_push _ _ _

variable (workspace : ItemId) (o : AcceptOutcome)

theorem acceptedCount_ofOutcome : (ofOutcome workspace o false).acceptedCount = o.accepted.length :=
  countSets_group _

theorem discardedCount_ofOutcome : (ofOutcome workspace o false).discardedCount = o.discarded.length :=
  countSets_group _

end ChangeReport

end SandboxFetch
