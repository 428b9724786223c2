/-
  SandboxFetch.Proofs.ChangeLog.Counting — which tags of a document are counted in its report.

  A reader holds the change sets that it has listed and the one that is open. With each tag it holds
  one more, or the tag and what is held go apart for good (`heldSets_of_enters`). They go apart in
  three ways (`LosesSet`): a change set stands in a section whose inner section was left, one is
  opened while another is open, or another root begins. So the report of a document has as many
  change sets as there are tags of change sets in its sections, unless one was lost in one of these
  ways, and then it has fewer, though the reader finds no fault; and likewise the component changes
  (`ofText_counts`).
-/

import SandboxFetch.Proofs.Xml.Nesting
import SandboxFetch.Proofs.ChangeLog.Taking
import SandboxFetch.Proofs.Dict

namespace SandboxFetch

namespace ChangeLog

open Xml (Event Inside tagsInside outline)

/-! ## Places -/

structure Place where
  /-- What the last tag that begins or ends a section left. -/
  part : Section := .outside
  /-- Whether a change set is open. -/
  pending : Bool := false

def Place.after (p : Place) : Event → Place
  | .opening tag => ⟨(partNamed? tag.localName).getD p.part, p.pending || (tag.localName = "changeSet" && Listing p.part)⟩
  | .empty _ => p
  | .closing name =>
    ⟨if (partNamed? (Xml.localName name)).isSome then .outside else p.part,
      p.pending && Xml.localName name ≠ "changeSet"⟩

def placeAfter (events : List Event) : Place := events.foldl Place.after {}

theorem placeAfter_concat (events : List Event) (e : Event) :
    placeAfter (events ++ [e]) = (placeAfter events).after e := by
  simp [placeAfter]

def Reader.place (r : Reader) : Place := ⟨r.part, r.changeSet.isSome⟩

variable {r r' : Reader} {isEmpty : Bool} {name : String} {events : List Event} {e : Event}

theorem changed_place (r : Reader) (f : Dict (List ReportedChangeSet) → Dict (List ReportedChangeSet)) :
    (changed r f).place = r.place := by
  obtain ⟨report?, part, component, changeSet⟩ := r
  cases part <;> rfl

theorem place_of_enters (h : Enters isEmpty r name r') : r'.place =
    if isEmpty then r.place
    else ⟨(partNamed? name).getD r.part, r.changeSet.isSome || (name = "changeSet" && Listing r.part)⟩ := by
  cases h with
  | root => cases isEmpty <;> simp [Reader.place, partNamed?]
  | @part name part named =>
    have other : name ≠ "changeSet" := by
      rintro rfl
      cases named
    cases isEmpty <;> simp [Reader.place, named, other]
  | passedComponent => cases isEmpty <;> simp [Reader.place, partNamed?]
  | componentChange => cases isEmpty <;> simp [Reader.place, partNamed?]
  | component =>
    show (changed r _).place = _
    rw [changed_place]
    cases isEmpty <;> simp [Reader.place, partNamed?]
  | passedSet elsewhere => cases isEmpty <;> simp [Reader.place, partNamed?, elsewhere]
  | emptySet empty => simp [empty, changed_place]
  | openedSet opening listing => simp [Reader.place, partNamed?, opening, listing]
  | itemChange opened => cases isEmpty <;> simp [Reader.place, partNamed?, opened]
  | workItem opened => cases isEmpty <;> simp [Reader.place, partNamed?, opened]
  | passed unknown => cases isEmpty <;> simp [Reader.place, unknown]

theorem place_of_leaves (h : Leaves r name r') : r'.place =
    ⟨if (partNamed? name).isSome then .outside else r.part, r.changeSet.isSome && name ≠ "changeSet"⟩ := by
  cases h with
  | changeSet =>
    rw [changed_place]
    simp [Reader.place, partNamed?]
  | component => simp [Reader.place, partNamed?]
  | part named =>
    have other : name ≠ "changeSet" := by
      rintro rfl
      cases named
    simp [Reader.place, named, other]
  | passed unknown => simp [Reader.place, unknown]

/-- The place of a reader is told by the tags that it took. -/
theorem place_of_takes (h : Takes r e r') : r'.place = r.place.after e := by
  cases e with
  | opening tag => exact place_of_enters h
  | empty tag => exact place_of_enters h
  | closing name => exact place_of_leaves h

/-- The element of a section is open as long as it is the part of the document. -/
theorem open_of_part (matched : Xml.Matched events) (known : (placeAfter events).part ≠ .outside) :
    ∃ name ∈ outline events, partNamed? name = some (placeAfter events).part := by
  induction events using List.reverseRecOn with
  | nil => exact absurd rfl known
  | append_singleton front e ih =>
    have ih := ih matched.front
    rw [placeAfter_concat] at known ⊢
    cases e with
    | opening tag =>
      rw [Xml.outline_concat]
      cases named : partNamed? tag.localName with
      | some part => exact ⟨tag.localName, List.mem_cons_self, by simp [Place.after, named]⟩
      | none =>
        simp only [Place.after, named, Option.getD_none] at known ⊢
        obtain ⟨name, around, same⟩ := ih known
        exact ⟨name, List.mem_cons_of_mem _ around, same⟩
    | empty tag =>
      rw [Xml.outline_concat]
      exact ih known
    | closing raw =>
      by_cases left : (partNamed? (Xml.localName raw)).isSome
      · simp [Place.after, left] at known
      · -- the element that is left is no section, so the section is another one
        simp only [Place.after, if_neg left] at known ⊢
        obtain ⟨name, around, same⟩ := ih known
        rw [matched.closing] at around
        rcases List.mem_cons.1 around with rfl | around
        · simp [same] at left
        · exact ⟨name, around, same⟩

def listingNames : List String := ["accepted", "discarded"]

theorem partNamed?_eq_some {part : Section} (h : partNamed? name = some part) :
    (part = .componentChanges → name = "componentChanges") ∧ (Listing part → name ∈ listingNames) := by
  unfold partNamed? at h
  split at h <;> cases h <;> simp [Listing, listingNames]

theorem inside_of_listing (matched : Xml.Matched events) (listing : Listing (placeAfter events).part) :
    Inside listingNames events := by
  have known : (placeAfter events).part ≠ .outside := by
    rcases listing with part | part <;> rw [part] <;> decide
  obtain ⟨name, around, same⟩ := open_of_part matched known
  exact ⟨name, around, (partNamed?_eq_some same).2 listing⟩

theorem inside_of_componentChanges (matched : Xml.Matched events)
    (among : (placeAfter events).part = .componentChanges) : Inside ["componentChanges"] events := by
  have known : (placeAfter events).part ≠ .outside := by
    rw [among]
    decide
  obtain ⟨name, around, same⟩ := open_of_part matched known
  exact ⟨name, around, List.mem_singleton.2 ((partNamed?_eq_some same).1 among)⟩

/-! ## Change sets -/

def listedSets (r : Reader) : Nat :=
  match r.report with
  | some report => report.acceptedCount + report.discardedCount
  | none => 0

/-- How many change sets a reader has, listed or open. -/
def heldSets (r : Reader) : Nat := listedSets r + r.changeSet.isSome.toNat

theorem listedSets_reserve (r : Reader) (id : ItemId) : listedSets (changed r (·.reserve id)) = listedSets r := by
  obtain ⟨report?, part, component, changeSet⟩ := r
  cases report? with
  | none => cases part <;> rfl
  | some report =>
    cases part <;>
      simp only [listedSets, changed, Option.map_some, ChangeReport.acceptedCount, ChangeReport.discardedCount,
        ChangeReport.countSets, Dict.length_flatten_reserve]

theorem listedSets_push (lists : Lists r) (id : ItemId) (c : ReportedChangeSet) :
    listedSets (changed r (·.push id c)) = listedSets r + 1 := by
  obtain ⟨report?, part, component, changeSet⟩ := r
  cases report? with
  | none => cases lists.1
  | some report =>
    obtain ⟨-, rfl | rfl⟩ := lists
    · simp only [listedSets, changed, Option.map_some, ChangeReport.acceptedCount, ChangeReport.discardedCount,
        ChangeReport.countSets, Dict.length_flatten_push]
      omega
    · simp only [listedSets, changed, Option.map_some, ChangeReport.acceptedCount, ChangeReport.discardedCount,
        ChangeReport.countSets, Dict.length_flatten_push]
      omega

/-- A change set is held once its tag is met where change sets are listed, unless the tag opens it and
    another one is open. A root lets go of all that are listed. -/
theorem heldSets_of_enters (h : Enters isEmpty r name r') : heldSets r' =
    if name = "changelog" then r.changeSet.isSome.toNat
    else heldSets r +
      if name = "changeSet" ∧ Listing r.part ∧ (r.changeSet.isSome → isEmpty) then 1 else 0 := by
  cases h with
  | root bare =>
    obtain ⟨-, accepted, discarded⟩ := bare
    simp [heldSets, listedSets, ChangeReport.acceptedCount, ChangeReport.discardedCount, accepted, discarded]
    rfl
  | @part name part named =>
    have other : name ≠ "changelog" ∧ name ≠ "changeSet" := by
      constructor <;> rintro rfl <;> cases named
    cases isEmpty <;> simp [other, heldSets, listedSets]
  | passedComponent => simp
  | componentChange met => simp [heldSets, listedSets, met, ChangeReport.acceptedCount, ChangeReport.discardedCount]
  | component =>
    show listedSets (changed r _) + (changed r _).changeSet.isSome.toNat = _
    rw [listedSets_reserve, changed_changeSet]
    simp [heldSets]
  | passedSet elsewhere => simp [elsewhere]
  | emptySet empty lists =>
    have listing : Listing r.part := lists.2
    rw [heldSets, listedSets_push lists, changed_changeSet]
    simp [empty, listing, heldSets]
    omega
  | openedSet opening listing =>
    cases open? : r.changeSet <;> simp [heldSets, listedSets, opening, listing, open?]
  | itemChange opened => simp [heldSets, listedSets, opened]
  | workItem opened => simp [heldSets, listedSets, opened]
  | passed unknown => simp [unknown]

theorem heldSets_of_leaves (h : Leaves r name r') : heldSets r' = heldSets r := by
  cases h with
  | changeSet opened lists =>
    have closed : Lists { r with changeSet := none } := lists
    rw [heldSets, listedSets_push closed, changed_changeSet]
    simp [heldSets, listedSets, opened]
  | component | part | passed => rfl

/-- No event of a document is one at which something gets lost. -/
def Lossless (loses : List Event → Event → Prop) (events : List Event) : Prop :=
  ∀ before e, before ++ [e] <+: events → ¬ loses before e

theorem lossless_concat {loses : List Event → Event → Prop} :
    Lossless loses (events ++ [e]) ↔ Lossless loses events ∧ ¬ loses events e := by
  constructor
  · intro all
    exact ⟨fun before x earlier => all before x (earlier.trans (List.prefix_append _ _)), all events e List.prefix_rfl⟩
  · rintro ⟨earlier, last⟩ before x member
    rcases List.prefix_concat_iff.1 member with whole | front
    · obtain ⟨rfl, same⟩ := List.append_inj' whole rfl
      obtain rfl : x = e := List.singleton_inj.1 same
      exact last
    · exact earlier before x front

/-- How many tags of change sets stand inside the sections for them. -/
def setTags (events : List Event) : Nat := tagsInside "changeSet" listingNames events

/-- The tag of a change set stands inside a section, but a section inside that one has been left or
    entered; or a change set is opened while another one is open; or another root begins behind a
    change set that was listed. -/
def LosesSet (before : List Event) (e : Event) : Prop :=
  (e.starts? = some "changeSet" ∧ Inside listingNames before ∧ ¬ Listing (placeAfter before).part) ∨
  (e.opens? = some "changeSet" ∧ Listing (placeAfter before).part ∧ (placeAfter before).pending) ∨
  (e.starts? = some "changelog" ∧ (placeAfter before).pending.toNat < setTags before)

/-- What a reader holds against the tags that it met: there is one for each tag, or fewer when some was
    lost. -/
structure Holds (held tags : Nat) (loses : List Event → Event → Prop) (events : List Event) : Prop where
  le : held ≤ tags
  eq_iff : held = tags ↔ Lossless loses events

theorem holds_sets_of_takes (matched : Xml.Matched events) (place : r.place = placeAfter events)
    (holds : Holds (heldSets r) (setTags events) LosesSet events) (takes : Takes r e r') :
    Holds (heldSets r') (setTags (events ++ [e])) LosesSet (events ++ [e]) := by
  obtain ⟨le, eq_iff⟩ := holds
  have tags : setTags (events ++ [e]) =
      setTags events + if e.starts? = some "changeSet" ∧ Inside listingNames events then 1 else 0 :=
    Xml.tagsInside_concat _ _ _ _
  have part : (placeAfter events).part = r.part := by rw [← place]; rfl
  have pending : (placeAfter events).pending = r.changeSet.isSome := by rw [← place]; rfl
  have inside : Listing r.part → Inside listingNames events := by
    rw [← part]
    exact inside_of_listing matched
  have open_le : r.changeSet.isSome.toNat ≤ heldSets r := Nat.le_add_left _ _
  -- one event loses a change set just when its tag counts and the reader holds no more than before
  suffices h : heldSets r' ≤ setTags (events ++ [e]) ∧
      (heldSets r' = setTags (events ++ [e]) ↔ heldSets r = setTags events ∧ ¬ LosesSet events e) by
    exact ⟨h.1, by rw [h.2, eq_iff, lossless_concat]⟩
  unfold LosesSet
  rw [tags, part, pending]
  cases e with
  | opening tag =>
    have held := heldSets_of_enters takes
    simp only [Event.starts?, Event.opens?, Option.some.injEq]
    grind
  | empty tag =>
    have held := heldSets_of_enters takes
    simp only [Event.starts?, Event.opens?]
    grind
  | closing name =>
    have held := heldSets_of_leaves takes
    simp [Event.starts?, Event.opens?]
    omega

/-! ## Component changes -/

def heldChanges (r : Reader) : Nat :=
  match r.report with
  | some report => report.componentChanges.length
  | none => 0

theorem heldChanges_changed (r : Reader) (f : Dict (List ReportedChangeSet) → Dict (List ReportedChangeSet)) :
    heldChanges (changed r f) = heldChanges r := by
  obtain ⟨report?, part, component, changeSet⟩ := r
  cases report? <;> cases part <;> rfl

theorem heldChanges_of_enters (h : Enters isEmpty r name r') : heldChanges r' =
    if name = "changelog" then 0
    else heldChanges r + if name = "component" ∧ r.part = .componentChanges then 1 else 0 := by
  cases h with
  | root bare => simp [heldChanges, bare]
  | @part name part named =>
    have other : name ≠ "changelog" ∧ name ≠ "component" := by
      constructor <;> rintro rfl <;> cases named
    cases isEmpty <;> simp [other, heldChanges]
  | passedComponent outside => simp [outside]
  | componentChange met inside => simp [heldChanges, met, inside]
  | component lists =>
    have elsewhere : r.part ≠ .componentChanges := by
      rcases lists.2 with part | part <;> rw [part] <;> decide
    show heldChanges (changed r _) = _
    rw [heldChanges_changed]
    simp [elsewhere]
  | emptySet => simp [heldChanges_changed]
  | passedSet | openedSet | itemChange | workItem => simp [heldChanges]
  | passed unknown => simp [unknown]

theorem heldChanges_of_leaves (h : Leaves r name r') : heldChanges r' = heldChanges r := by
  cases h with
  | changeSet => rw [heldChanges_changed]; rfl
  | component | part | passed => rfl

def changeTags (events : List Event) : Nat := tagsInside "component" ["componentChanges"] events

/-- The tag of a component stands among component changes, but a section inside them has been left or
    entered; or another root begins behind a component change. -/
def LosesChange (before : List Event) (e : Event) : Prop :=
  (e.starts? = some "component" ∧ Inside ["componentChanges"] before ∧ (placeAfter before).part ≠ .componentChanges) ∨
  (e.starts? = some "changelog" ∧ 0 < changeTags before)

theorem holds_changes_of_takes (matched : Xml.Matched events) (place : r.place = placeAfter events)
    (holds : Holds (heldChanges r) (changeTags events) LosesChange events) (takes : Takes r e r') :
    Holds (heldChanges r') (changeTags (events ++ [e])) LosesChange (events ++ [e]) := by
  obtain ⟨le, eq_iff⟩ := holds
  have tags : changeTags (events ++ [e]) =
      changeTags events + if e.starts? = some "component" ∧ Inside ["componentChanges"] events then 1 else 0 :=
    Xml.tagsInside_concat _ _ _ _
  have part : (placeAfter events).part = r.part := by rw [← place]; rfl
  have inside : r.part = .componentChanges → Inside ["componentChanges"] events := by
    rw [← part]
    exact inside_of_componentChanges matched
  suffices h : heldChanges r' ≤ changeTags (events ++ [e]) ∧
      (heldChanges r' = changeTags (events ++ [e]) ↔ heldChanges r = changeTags events ∧ ¬ LosesChange events e) by
    exact ⟨h.1, by rw [h.2, eq_iff, lossless_concat]⟩
  unfold LosesChange
  rw [tags, part]
  cases e with
  | opening tag =>
    have held := heldChanges_of_enters takes
    simp only [Event.starts?, Option.some.injEq]
    grind
  | empty tag =>
    have held := heldChanges_of_enters takes
    simp only [Event.starts?, Option.some.injEq]
    grind
  | closing name =>
    have held := heldChanges_of_leaves takes
    simp [Event.starts?]
    omega

/-! ## Flat documents -/

/-- A document whose only root tag comes first, and in which sections do not stand inside sections nor
    change sets inside change sets. -/
structure Flat (events : List Event) : Prop where
  root : ∀ before e, before ++ [e] <+: events → e.starts? = some "changelog" → before = []
  sections : ∀ before tag, before ++ [.opening tag] <+: events → (partNamed? tag.localName).isSome →
    ∀ name ∈ outline before, partNamed? name = none
  changeSets : ∀ before tag, before ++ [.opening tag] <+: events → tag.localName = "changeSet" →
    "changeSet" ∉ outline before

theorem Flat.of_prefix {front : List Event} (h : Flat events) (earlier : front <+: events) : Flat front where
  root before x member := h.root before x (member.trans earlier)
  sections before tag member := h.sections before tag (member.trans earlier)
  changeSets before tag member := h.changeSets before tag (member.trans earlier)

/-- In a flat document the part of the document is the one open section. -/
theorem Flat.parts (matched : Xml.Matched events) (flat : Flat events) : (outline events).filterMap partNamed? =
    if (placeAfter events).part = .outside then [] else [(placeAfter events).part] := by
  induction events using List.reverseRecOn with
  | nil => rfl
  | append_singleton front e ih =>
    have ih := ih matched.front (flat.of_prefix (List.prefix_append _ _))
    rw [placeAfter_concat]
    cases e with
    | opening tag =>
      rw [Xml.outline_concat]
      show (tag.localName :: outline front).filterMap partNamed? = _
      cases named : partNamed? tag.localName with
      | some part =>
        -- a section does not stand inside another one
        have alone : (outline front).filterMap partNamed? = [] := by
          rw [List.filterMap_eq_nil_iff]
          exact flat.sections front tag List.prefix_rfl (by rw [named]; rfl)
        have inner : part ≠ .outside := by
          rintro rfl
          unfold partNamed? at named
          split at named <;> cases named
        rw [List.filterMap_cons_some named, alone]
        simp [Place.after, named, inner]
      | none =>
        rw [List.filterMap_cons_none named, ih]
        simp [Place.after, named]
    | empty tag =>
      rw [Xml.outline_concat]
      exact ih
    | closing raw =>
      rw [matched.closing] at ih
      cases named : partNamed? (Xml.localName raw) with
      | some part =>
        rw [List.filterMap_cons_some named] at ih
        split at ih
        · cases ih
        · simpa [Place.after, named] using (List.cons.inj ih).2
      | none =>
        rw [List.filterMap_cons_none named] at ih
        simpa [Place.after, named] using ih

/-- A change set is open only inside its element. -/
theorem inside_of_pending (matched : Xml.Matched events) (pending : (placeAfter events).pending) :
    "changeSet" ∈ outline events := by
  induction events using List.reverseRecOn with
  | nil => cases pending
  | append_singleton front e ih =>
    have ih := ih matched.front
    rw [placeAfter_concat] at pending
    cases e with
    | opening tag =>
      rw [Xml.outline_concat]
      simp only [Place.after, Bool.or_eq_true, Bool.and_eq_true, decide_eq_true_eq] at pending
      rcases pending with before | ⟨named, -⟩
      · exact List.mem_cons_of_mem _ (ih before)
      · exact List.mem_cons.2 (.inl named.symm)
    | empty tag =>
      rw [Xml.outline_concat]
      exact ih pending
    | closing raw =>
      simp only [Place.after, Bool.and_eq_true, decide_eq_true_eq] at pending
      obtain ⟨before, other⟩ := pending
      have around := ih before
      rw [matched.closing] at around
      exact (List.mem_cons.1 around).resolve_left (Ne.symm other)

/-- The part of a flat document is that of any open section. -/
theorem Flat.part_eq (matched : Xml.Matched events) (flat : Flat events) {part : Section}
    (around : name ∈ outline events) (named : partNamed? name = some part) : (placeAfter events).part = part := by
  have member : part ∈ (outline events).filterMap partNamed? := List.mem_filterMap.2 ⟨name, around, named⟩
  rw [flat.parts matched] at member
  split at member
  · cases member
  · exact (List.mem_singleton.1 member).symm

/-- In a flat document nothing is lost. -/
theorem Flat.lossless (matched : Xml.Matched events) (flat : Flat events) :
    Lossless LosesSet events ∧ Lossless LosesChange events := by
  constructor
  · rintro before e member (⟨-, ⟨name, around, listed⟩, elsewhere⟩ | ⟨opens, -, pending⟩ | ⟨root, behind⟩)
    · have matched' := matched.of_prefix ((List.prefix_append _ _).trans member)
      have flat' := flat.of_prefix ((List.prefix_append _ _).trans member)
      refine elsewhere ?_
      rcases List.mem_cons.1 listed with rfl | listed
      · exact .inl (flat'.part_eq matched' around rfl)
      · obtain rfl := List.mem_singleton.1 listed
        exact .inr (flat'.part_eq matched' around rfl)
    · have matched' := matched.of_prefix ((List.prefix_append _ _).trans member)
      cases e with
      | opening tag =>
        have named : tag.localName = "changeSet" := Option.some.inj opens
        exact flat.changeSets before tag member named (inside_of_pending matched' pending)
      | empty tag => cases opens
      | closing raw => cases opens
    · obtain rfl := flat.root before e member root
      simp [setTags] at behind
  · rintro before e member (⟨-, ⟨name, around, listed⟩, elsewhere⟩ | ⟨root, behind⟩)
    · have matched' := matched.of_prefix ((List.prefix_append _ _).trans member)
      have flat' := flat.of_prefix ((List.prefix_append _ _).trans member)
      obtain rfl := List.mem_singleton.1 listed
      exact elsewhere (flat'.part_eq matched' around rfl)
    · obtain rfl := flat.root before e member root
      simp [changeTags] at behind

/-! ## Documents -/

structure Tracks (events : List Event) (r : Reader) : Prop where
  place : r.place = placeAfter events
  sets : Holds (heldSets r) (setTags events) LosesSet events
  changes : Holds (heldChanges r) (changeTags events) LosesChange events

theorem tracks_of_takes (matched : Xml.Matched events) (tracks : Tracks events r) (takes : Takes r e r') :
    Tracks (events ++ [e]) r' where
  place := by rw [place_of_takes takes, tracks.place, placeAfter_concat]
  sets := holds_sets_of_takes matched tracks.place tracks.sets takes
  changes := holds_changes_of_takes matched tracks.place tracks.changes takes

theorem tracks_init : Tracks [] {} := by
  have nothing : ∀ loses, Holds 0 0 loses [] := fun loses => ⟨Nat.le_refl 0, by simp [Lossless]⟩
  exact ⟨rfl, nothing _, nothing _⟩

theorem tracks_of_foldlM (matched : Xml.Matched events) (taken : events.foldlM Reader.step {} = .ok r) : Tracks events r := by
  refine foldlM_along Tracks taken ?_ tracks_init
  intro front e mid mid' inside tracks next
  have before : front <+: events := (List.prefix_append _ _).trans inside
  exact tracks_of_takes (matched.of_prefix before) tracks (takes_of_step next)

/-- A report that was read has no more change sets than there are tags of change sets in the sections
    of the document, and just as many when none is lost in one of the three ways; likewise it has no
    more component changes than there are tags of them, and just as many when none is lost. In a flat
    document nothing is lost. -/
theorem ofText_counts {s : String} {report : ChangeReport} (read : ofText s = .ok report) :
    Holds (report.acceptedCount + report.discardedCount) (setTags (eventsOf s)) LosesSet (eventsOf s) ∧
    Holds report.componentChanges.length (changeTags (eventsOf s)) LosesChange (eventsOf s) ∧
    (Flat (eventsOf s) → report.acceptedCount + report.discardedCount = setTags (eventsOf s) ∧
      report.componentChanges.length = changeTags (eventsOf s)) := by
  obtain ⟨r, taken, closed, met⟩ := taken_of_ofText read
  have matched : Xml.Matched (eventsOf s) := Xml.matched_scan _
  have tracks : Tracks (eventsOf s) r := tracks_of_foldlM matched taken
  have sets : heldSets r = report.acceptedCount + report.discardedCount := by simp [heldSets, listedSets, met, closed]
  have changes : heldChanges r = report.componentChanges.length := by simp [heldChanges, met]
  have keptSets := tracks.sets
  have keptChanges := tracks.changes
  rw [sets] at keptSets
  rw [changes] at keptChanges
  refine ⟨keptSets, keptChanges, fun flat => ?_⟩
  obtain ⟨noSet, noChange⟩ := flat.lossless matched
  exact ⟨keptSets.eq_iff.2 noSet, keptChanges.eq_iff.2 noChange⟩

def setTag (id : String) : List String := ["<changeSet", " itemId='" ++ id, "' date='2024", "-05-17T12:00:00Z'"]

def rootTag : List String := ["<changelog", " workspaceItemId='_ws'>"]

def coreTag : List String := ["<component", " itemId='_core'", " name='core'>"]

def behindText : String := documentOf
  (rootTag ++ ["<componentChanges>", "</componentChanges>", "<accepted>"] ++ coreTag ++ setTag "_1" ++
    ["/></component>", "</accepted>", "</changelog>"])

def withinText : String := documentOf
  (rootTag ++ ["<accepted>", "<componentChanges>", "</componentChanges>"] ++ coreTag ++ setTag "_1" ++
    ["/></component>", "</accepted>", "</changelog>"])

/-- A document that ends before the element of its first change set does. -/
def unclosedText : String := documentOf
  (rootTag ++ ["<accepted>"] ++ coreTag ++ setTag "_1" ++ [">"] ++ setTag "_2" ++ ["></changeSet>"])

def setsRead (s : String) : Option Nat :=
  (ofText s).toOption.map fun report => report.acceptedCount + report.discardedCount

theorem setsRead_eq_some {s : String} {n : Nat} (h : setsRead s = some n) :
    ∃ report, ofText s = .ok report ∧ report.acceptedCount + report.discardedCount = n := by
  unfold setsRead at h
  cases read : ofText s with
  | error fault =>
    rw [read] at h
    cases h
  | ok report =>
    rw [read] at h
    exact ⟨report, rfl, Option.some.inj h⟩

theorem ofText_counts_behind : ∃ report, ofText behindText = .ok report ∧
    report.acceptedCount + report.discardedCount = 1 ∧ Lossless LosesSet (eventsOf behindText) := by
  have counted : setsRead behindText = some 1 := by
    rw [setsRead, ofText, behindText, toList_documentOf]
    decide +kernel
  have tags : setTags (eventsOf behindText) = 1 := by
    rw [eventsOf, behindText, toList_documentOf]
    decide +kernel
  obtain ⟨report, read, one⟩ := setsRead_eq_some counted
  exact ⟨report, read, one, (ofText_counts read).1.eq_iff.1 (one.trans tags.symm)⟩

/-- Of two change sets in a document the first is lost, whose closing tag never comes. -/
theorem not_counts_unclosed : ∃ report, ofText unclosedText = .ok report ∧
    report.acceptedCount + report.discardedCount = 1 ∧ setTags (eventsOf unclosedText) = 2 := by
  have counted : setsRead unclosedText = some 1 := by
    rw [setsRead, ofText, unclosedText, toList_documentOf]
    decide +kernel
  have tags : setTags (eventsOf unclosedText) = 2 := by
    rw [eventsOf, unclosedText, toList_documentOf]
    decide +kernel
  obtain ⟨report, read, one⟩ := setsRead_eq_some counted
  exact ⟨report, read, one, tags⟩

/-- The change set of an accepted section is lost behind a section inside it. -/
example : setsRead withinText = some 0 ∧ setTags (eventsOf withinText) = 1 := by
  rw [setsRead, ofText, eventsOf, withinText, toList_documentOf]
  decide +kernel

end ChangeLog

end SandboxFetch
