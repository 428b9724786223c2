/-
  SandboxFetch.Proofs.Component.Choosing — which components a configuration chooses.

  The policies of a configuration look at one list of names at most (`Configuration.consultedNames`).
  Looking the names up stops at the first one that several components have; otherwise it finds the
  components that the names mean, in list order and once for each id (`lookUp_eq`). The set is then
  what the policies admit, in the order of the server, whatever else the configuration says
  (`resolve_chooses`).
-/

import SandboxFetch.Component.Set

namespace SandboxFetch

variable {all : List Component} {names : List String} {name : String} {c c' : Configuration} {rules : RuleTable}

/-! ## Names -/

namespace Component

def isAmbiguous (all : List Component) (name : String) : Bool := 1 < all.countP (isNamed name)

def meant (all : List Component) (names : List String) : List Component :=
  names.flatMap fun name => all.filter (isNamed name)

theorem any_meant {p : Component → Bool} :
    (meant all names).any p = names.any fun name => all.any fun d => isNamed name d && p d := by
  unfold meant
  rw [List.any_flatMap]
  simp only [List.any_filter]

end Component

/-- Puts a component behind others, unless one of them has its id. -/
def addNew (named : List Component) (d : Component) : List Component :=
  if named.any (·.id == d.id) then named else named ++ [d]

/-- Adding components one by one leaves the first one of each id. -/
theorem foldl_addNew (found named : List Component) : found.foldl addNew named =
    named ++ (found.filter fun d => !named.any (·.id == d.id)).eraseDupsBy (·.id == ·.id) := by
  induction found generalizing named with
  | nil => simp
  | cons d rest ih =>
    rw [List.foldl_cons, ih, addNew]
    by_cases held : named.any (·.id == d.id) = true
    · rw [if_pos held, List.filter_cons_of_neg (by simp [held])]
    · rw [if_neg held, List.filter_cons_of_pos (by simpa using held), List.eraseDupsBy_cons, List.filter_filter,
        List.append_assoc, List.singleton_append]
      congr 3
      refine List.filter_congr fun x _ => ?_
      simp only [List.any_append, List.any_cons, List.any_nil, Bool.or_false, Bool.not_or, Bool.decide_eq_false,
        Bool.and_comm, BEq.comm]

/-- No id is lost, and none is added. -/
theorem any_foldl_addNew (found named : List Component) (id : ItemId) :
    (found.foldl addNew named).any (·.id == id) = (named.any (·.id == id) || found.any (·.id == id)) := by
  induction found generalizing named with
  | nil => simp
  | cons d rest ih =>
    rw [List.foldl_cons, ih, List.any_cons, ← Bool.or_assoc]
    congr 1
    unfold addNew
    split
    · next held =>
      by_cases same : d.id = id
      · rw [same] at held
        rw [held, Bool.true_or]
      · rw [beq_false_of_ne same, Bool.or_false]
    · simp

namespace ComponentSet

/-- One name adds what it means, or fails when that is not a single component. -/
theorem addNamed_eq (named : List Component) : addNamed all named name =
    if Component.isAmbiguous all name then
      .error (.ambiguousName (Text.trim name) (all.countP (Component.isNamed name)))
    else .ok ((all.filter (Component.isNamed name)).foldl addNew named) := by
  unfold addNamed Component.named? Component.isAmbiguous
  rw [List.countP_eq_length_filter]
  cases all.filter (Component.isNamed name) with
  | nil => rfl
  | cons d rest =>
    cases rest with
    | nil => rfl
    | cons d' rest' => rw [if_pos (by simp)]; rfl

theorem foldlM_addNamed (named : List Component) : names.foldlM (addNamed all) named =
    match names.find? (Component.isAmbiguous all) with
    | some name => .error (.ambiguousName (Text.trim name) (all.countP (Component.isNamed name)))
    | none => .ok ((Component.meant all names).foldl addNew named) := by
  induction names generalizing named with
  | nil => rfl
  | cons name rest ih =>
    rw [List.foldlM_cons, addNamed_eq]
    cases several : Component.isAmbiguous all name with
    | true =>
      rw [List.find?_cons, several]
      rfl
    | false =>
      rw [List.find?_cons, several]
      unfold Component.meant
      rw [List.flatMap_cons, List.foldl_append]
      exact ih _

/-- Names mean components, each id once and in list order, unless one of them is ambiguous. -/
theorem lookUp_eq : lookUp all names =
    match names.find? (Component.isAmbiguous all) with
    | some name => .error (.ambiguousName (Text.trim name) (all.countP (Component.isNamed name)))
    | none => .ok ((Component.meant all names).eraseDupsBy (·.id == ·.id)) := by
  unfold lookUp
  have none : (Component.meant all names).filter (fun d => !([] : List Component).any (·.id == d.id)) =
      Component.meant all names := List.filter_eq_self.2 fun _ _ => rfl
  rw [foldlM_addNamed, foldl_addNew, List.nil_append, none]

/-- The ids of the components that were found are those of the components that are meant. -/
theorem any_lookUp {named : List Component} (h : lookUp all names = .ok named) (id : ItemId) :
    named.any (·.id == id) = (Component.meant all names).any (·.id == id) := by
  unfold lookUp at h
  rw [foldlM_addNamed] at h
  split at h
  · cases h
  · cases h
    rw [any_foldl_addNew, List.any_nil, Bool.false_or]

end ComponentSet

/-! ## Policies -/

/-- The ways to form a set, each with what the configuration has to say for it. -/
inductive Forms (c : Configuration) : SetOrigin → Prop
  | rulesOnly : c.policy = some .loadRules → Forms c .rulesOnly
  | excludeSome : c.policy = some .componentPolicy → c.componentPolicy = some .excludeSome → Forms c .excludeSome
  | loadAll : c.policy = some .componentPolicy → c.componentPolicy ≠ some .excludeSome → Forms c .loadAll
  | listedOnly : c.policy = none → c.listIncludes = true → Forms c .listedOnly
  | allButListed : c.policy = none → c.listIncludes = false → c.listedNames ≠ [] → Forms c .allButListed
  | unlisted : c.policy = none → c.listIncludes = false → c.listedNames = [] → Forms c .unlisted

theorem forms_of (c : Configuration) : Forms c (.of c) := by
  unfold SetOrigin.of
  split
  · next policy => exact .rulesOnly policy
  · next policy excludes => exact .excludeSome policy excludes
  · next policy other => exact .loadAll policy other
  · next policy =>
    split
    · next includes => exact .listedOnly policy includes
    · next excludes =>
      rw [Bool.not_eq_true] at excludes
      split
      · next empty => exact .unlisted policy excludes (List.isEmpty_iff.1 empty)
      · next named => exact .allButListed policy excludes fun empty => named (List.isEmpty_iff.2 empty)

namespace Configuration

def consultedNames (c : Configuration) : List String :=
  match c.policy with
  | some .loadRules => []
  | some .componentPolicy => if c.componentPolicy = some .excludeSome then c.excludedNames else []
  | none => if c.listIncludes || !c.listedNames.isEmpty then c.listedNames else []

/-- Whether the policies take in a component, given whether a rule covers it and whether a consulted name
    means it. -/
def admits (c : Configuration) (ruled matched : Bool) : Bool :=
  match c.policy with
  | some .loadRules => ruled
  | some .componentPolicy => if c.componentPolicy = some .excludeSome then !matched else true
  | none => if c.listIncludes then matched else !matched

/-- Two configurations have the same policies, as far as they are looked at, and the same consulted
    names. -/
def ChoosesLike (c c' : Configuration) : Prop :=
  c.policy = c'.policy ∧ match c.policy with
    | some .loadRules => True
    | some .componentPolicy =>
      (c.componentPolicy = some .excludeSome ↔ c'.componentPolicy = some .excludeSome) ∧
        (c.componentPolicy = some .excludeSome → c.excludedNames = c'.excludedNames)
    | none => c.listIncludes = c'.listIncludes ∧ c.listedNames = c'.listedNames

end Configuration

namespace Forms

variable {o : SetOrigin}

theorem namesFor_eq (h : Forms c o) : c.namesFor o = c.consultedNames := by
  unfold Configuration.consultedNames
  cases h with
  | rulesOnly policy => rw [policy]; rfl
  | excludeSome policy excludes => rw [policy]; exact (if_pos excludes).symm
  | loadAll policy other => rw [policy]; exact (if_neg other).symm
  | listedOnly policy includes => rw [policy, includes]; rfl
  | allButListed policy excludes named =>
    rw [policy]
    exact (if_pos (by simp [named])).symm
  | unlisted policy excludes empty =>
    rw [policy]
    exact (if_neg (by simp [excludes, empty])).symm

/-- The components that are kept are those that the policies admit. -/
theorem keeps_eq (h : Forms c o) {named : List Component} (found : ComponentSet.lookUp all c.consultedNames = .ok named)
    (d : Component) : o.keeps rules named d = c.admits (rules.forComponent? d.id).isSome
      ((Component.meant all c.consultedNames).any (·.id == d.id)) := by
  rw [← ComponentSet.any_lookUp found]
  unfold Configuration.admits
  cases h with
  | rulesOnly policy => rw [policy]; rfl
  | excludeSome policy excludes => rw [policy]; exact (if_pos excludes).symm
  | loadAll policy other => rw [policy]; exact (if_neg other).symm
  | listedOnly policy includes => rw [policy, includes]; rfl
  | allButListed policy excludes => rw [policy, excludes]; rfl
  | unlisted policy excludes empty =>
    -- no name is listed, so none was looked up
    have nothing : c.consultedNames = [] := by simp [Configuration.consultedNames, policy, excludes, empty]
    rw [nothing] at found
    cases found
    rw [policy, excludes]
    rfl

theorem like {c' : Configuration} (h : Forms c o) (like : c.ChoosesLike c') : Forms c' o := by
  obtain ⟨policies, alike⟩ := like
  cases h with
  | rulesOnly policy => exact .rulesOnly (policies ▸ policy)
  | excludeSome policy excludes =>
    rw [policy] at alike policies
    exact .excludeSome policies.symm (alike.1.1 excludes)
  | loadAll policy other =>
    rw [policy] at alike policies
    exact .loadAll policies.symm fun excludes => other (alike.1.2 excludes)
  | listedOnly policy includes =>
    rw [policy] at alike policies
    exact .listedOnly policies.symm (alike.1 ▸ includes)
  | allButListed policy excludes named =>
    rw [policy] at alike policies
    exact .allButListed policies.symm (alike.1 ▸ excludes) (alike.2 ▸ named)
  | unlisted policy excludes empty =>
    rw [policy] at alike policies
    exact .unlisted policies.symm (alike.1 ▸ excludes) (alike.2 ▸ empty)

/-- There is one way to form the set of a configuration. -/
theorem of_eq (h : Forms c o) : SetOrigin.of c = o := by
  unfold SetOrigin.of
  cases h with
  | rulesOnly policy => rw [policy]
  | excludeSome policy excludes => rw [policy, excludes]
  | loadAll policy other =>
    rw [policy]
    split
    · next impossible => cases impossible
    · next _ excludes => exact absurd excludes other
    · rfl
    · next impossible => cases impossible
  | listedOnly policy includes => rw [policy, includes]; rfl
  | allButListed policy excludes named =>
    rw [policy, excludes]
    exact if_neg fun empty => named (List.isEmpty_iff.1 empty)
  | unlisted policy excludes empty => rw [policy, excludes, empty]; rfl

end Forms

theorem Configuration.ChoosesLike.consultedNames_eq (like : c.ChoosesLike c') :
    c.consultedNames = c'.consultedNames := by
  obtain ⟨policies, alike⟩ := like
  unfold consultedNames
  rw [← policies]
  cases policy : c.policy with
  | none =>
    rw [policy] at alike
    rw [alike.1, alike.2]
  | some decided =>
    cases decided with
    | loadRules => rfl
    | componentPolicy =>
      rw [policy] at alike
      by_cases excludes : c.componentPolicy = some .excludeSome
      · rw [if_pos excludes, if_pos (alike.1.1 excludes), alike.2 excludes]
      · rw [if_neg excludes, if_neg fun excludes' => excludes (alike.1.2 excludes')]

/-! ## Sets -/

/-- The components that the policies admit, in the order of the server and each with its rule, and the
    components that the consulted names mean, in the order of the names. -/
def Configuration.chosenSet (c : Configuration) (all : List Component) (rules : RuleTable) : ComponentSet :=
  let matched := Component.meant all c.consultedNames
  {
    origin := .of c
    selections := (all.filter fun d => c.admits (rules.forComponent? d.id).isSome (matched.any (·.id == d.id))).map
      fun d => ⟨d, rules.forComponent? d.id⟩
    named := matched.eraseDupsBy (·.id == ·.id) }

theorem ComponentSet.resolve_eq : resolve all c rules =
    match c.consultedNames.find? (Component.isAmbiguous all) with
    | some name => .error (.ambiguousName (Text.trim name) (all.countP (Component.isNamed name)))
    | none => .ok (c.chosenSet all rules) := by
  have looked : lookUp all c.consultedNames = _ := lookUp_eq
  unfold resolve
  dsimp only
  rw [(forms_of c).namesFor_eq]
  cases first : c.consultedNames.find? (Component.isAmbiguous all) with
  | some name =>
    rw [first] at looked
    rw [looked]
    rfl
  | none =>
    rw [first] at looked
    have kept : (SetOrigin.of c).keeps rules ((Component.meant all c.consultedNames).eraseDupsBy (·.id == ·.id)) =
        fun d => c.admits (rules.forComponent? d.id).isSome
          ((Component.meant all c.consultedNames).any (·.id == d.id)) := funext ((forms_of c).keeps_eq looked)
    rw [looked]
    simp only [Configuration.chosenSet, ← kept]
    rfl

/-- A configuration has a component set unless several components have a name that it consults, and what
    it does not consult makes no difference. -/
theorem resolve_chooses (all : List Component) (c : Configuration) (rules : RuleTable) :
    ((∃ fault, ComponentSet.resolve all c rules = .error fault) ↔
      ∃ name ∈ c.consultedNames, 1 < all.countP (Component.isNamed name)) ∧
    (ComponentSet.resolve all c rules = match c.consultedNames.find? (Component.isAmbiguous all) with
      | some name => .error (.ambiguousName (Text.trim name) (all.countP (Component.isNamed name)))
      | none => .ok (c.chosenSet all rules)) ∧
    ∀ c', c.ChoosesLike c' → ComponentSet.resolve all c' rules = ComponentSet.resolve all c rules := by
  refine ⟨?_, ComponentSet.resolve_eq, fun c' like => ?_⟩
  · have several : (∃ name ∈ c.consultedNames, 1 < all.countP (Component.isNamed name)) ↔
        (c.consultedNames.find? (Component.isAmbiguous all)).isSome = true := by
      simp only [List.find?_isSome, Component.isAmbiguous, decide_eq_true_eq]
    rw [several, ComponentSet.resolve_eq]
    cases c.consultedNames.find? (Component.isAmbiguous all) with
    | none => simp
    | some name => simp
  · have origin : SetOrigin.of c' = .of c := ((forms_of c).like like).of_eq
    have names : c'.namesFor (.of c) = c.namesFor (.of c) := by
      rw [((forms_of c).like like).namesFor_eq, (forms_of c).namesFor_eq, like.consultedNames_eq]
    unfold ComponentSet.resolve
    simp only [origin, names]

end SandboxFetch
