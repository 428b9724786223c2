/-
  SandboxFetch.Proofs.ChangeLog.Image — the reports that are read from documents.

  Whatever document a report is read from, each change set in it is listed under the id of its own
  component, and its count covers the changes that are listed for it: this holds of every reader that
  a document can lead to (`Sound`), since each tag keeps it (`sound_of_takes`). The document has a
  character for each of those changes, so in a text that a machine can hold the count is no less than
  their number even though it is a 64-bit word. Hence a report that was read is its own normal form as
  soon as no component goes by two names in a list, and comes back from its own document
  (`ofText_image`).
-/

import SandboxFetch.Proofs.ChangeLog.RoundTrip
import SandboxFetch.Proofs.ChangeLog.Taking

namespace SandboxFetch.ChangeLog

open Xml (Event)

/-! ## Sound readers -/

/-- A change set is one that a reader can list under an id after some events. -/
structure Fits (events : Nat) (id : ItemId) (c : ReportedChangeSet) : Prop where
  under : c.component.id = id
  counted : c.tooMany = false → UInt64.ofNat c.changes.length ≤ c.count
  few : c.changes.length ≤ events

def AllFit (events : Nat) (sets : Dict (List ReportedChangeSet)) : Prop :=
  ∀ id l, sets.get? id = some l → ∀ c ∈ l, Fits events id c

structure Sound (events : Nat) (r : Reader) : Prop where
  listed : ∀ report, r.report = some report → AllFit events report.accepted ∧ AllFit events report.discarded
  opened : ∀ c, r.changeSet = some c → c.changes.length ≤ events

variable {n : Nat} {r r' : Reader} {sets : Dict (List ReportedChangeSet)}

theorem AllFit.empty : AllFit n ∅ := fun _ _ there => nomatch there

theorem AllFit.later (h : AllFit n sets) : AllFit (n + 1) sets := fun id l there c member =>
  { h id l there c member with few := Nat.le_succ_of_le (h id l there c member).few }

theorem AllFit.update (h : AllFit n sets) (id : ItemId)
    {f : Option (List ReportedChangeSet) → List ReportedChangeSet}
    (fits : ∀ o, ∀ c ∈ f o, c ∈ o.getD [] ∨ Fits n id c) : AllFit n (sets.update id f) := by
  intro j l there c member
  rw [Dict.get?_update] at there
  by_cases same : j = id
  · subst same
    rw [if_pos rfl] at there
    obtain rfl := Option.some.inj there
    rcases fits _ c member with before | new
    · cases known : sets.get? j with
      | none =>
        rw [known] at before
        cases before
      | some l =>
        rw [known] at before
        exact h j l known c before
    · exact new
  · rw [if_neg same] at there
    exact h j l there c member

theorem AllFit.reserve (h : AllFit n sets) (id : ItemId) : AllFit n (sets.reserve id) :=
  h.update id fun _ _ member => .inl member

theorem AllFit.push (h : AllFit n sets) {c : ReportedChangeSet} {id : ItemId} (fits : Fits n id c) :
    AllFit n (sets.push id c) := by
  refine h.update id fun o d member => ?_
  rcases List.mem_append.1 member with before | new
  · exact .inl before
  · rw [List.mem_singleton.1 new]
    exact .inr fits

/-- A change set is listed with a count that covers its changes. -/
theorem fits_settleCount {c : ReportedChangeSet} (few : c.changes.length ≤ n) :
    Fits n c.component.id (Reader.settleCount c) := by
  unfold Reader.settleCount
  split
  · next tooMany => exact ⟨rfl, fun listed => by simp [tooMany] at listed, few⟩
  · refine ⟨rfl, fun _ => ?_, few⟩
    show UInt64.ofNat c.changes.length ≤
      if c.count ≤ UInt64.ofNat c.changes.length then UInt64.ofNat c.changes.length else c.count
    split
    · exact UInt64.le_refl _
    · next above => exact UInt64.le_of_lt (UInt64.not_le.1 above)

theorem Sound.later (h : Sound n r) : Sound (n + 1) r where
  listed report met := (h.listed report met).imp AllFit.later AllFit.later
  opened c there := Nat.le_succ_of_le (h.opened c there)

theorem Sound.changed (h : Sound n r) {f : Dict (List ReportedChangeSet) → Dict (List ReportedChangeSet)}
    (fits : ∀ sets, AllFit n sets → AllFit n (f sets)) : Sound n (changed r f) := by
  refine ⟨fun report met => ?_, by simpa using h.opened⟩
  obtain ⟨report?, part, component, changeSet⟩ := r
  cases report? with
  | none => cases part <;> cases met
  | some known =>
    obtain ⟨accepted, discarded⟩ := h.listed known rfl
    cases part <;> cases met
    · exact ⟨accepted, discarded⟩
    · exact ⟨accepted, discarded⟩
    · exact ⟨fits _ accepted, discarded⟩
    · exact ⟨accepted, fits _ discarded⟩

/-- A change set may be opened or changed as long as its changes are no more than the events. -/
theorem Sound.reopen (h : Sound n r) {c : ReportedChangeSet} (few : c.changes.length ≤ n) :
    Sound n { r with changeSet := some c } where
  listed := h.listed
  opened c' there := by
    obtain rfl := Option.some.inj there
    exact few

theorem Sound.push (h : Sound n r) {c : ReportedChangeSet} (few : c.changes.length ≤ n) :
    Sound n (ChangeLog.changed r (·.push c.component.id (Reader.settleCount c))) :=
  h.changed fun _ fits => fits.push (fits_settleCount few)

theorem sound_of_enters {isEmpty : Bool} {name : String} (h : Sound n r) (enters : Enters isEmpty r name r') :
    Sound (n + 1) r' := by
  cases enters with
  | root bare =>
    obtain ⟨-, accepted, discarded⟩ := bare
    refine ⟨fun report met => ?_, h.later.opened⟩
    obtain rfl := Option.some.inj met
    rw [accepted, discarded]
    exact ⟨.empty, .empty⟩
  | part => cases isEmpty <;> exact ⟨h.later.listed, h.later.opened⟩
  | @componentChange known _ met =>
    refine ⟨fun report met' => ?_, h.later.opened⟩
    obtain rfl := Option.some.inj met'
    exact h.later.listed known met
  | @component component =>
    have reserved := h.later.changed fun sets fits => fits.reserve component.id
    exact ⟨reserved.listed, reserved.opened⟩
  | emptySet _ _ bare => exact h.later.push (by simp [bare])
  | openedSet _ _ bare => exact h.later.reopen (by simp [bare])
  | itemChange opened =>
    have few := h.opened _ opened
    exact h.later.reopen (by simpa using few)
  | workItem opened same =>
    have few := h.opened _ opened
    exact h.later.reopen (by rw [same]; omega)
  | passedComponent | passedSet | passed => exact h.later

theorem sound_of_leaves {name : String} (h : Sound n r) (leaves : Leaves r name r') : Sound (n + 1) r' := by
  cases leaves with
  | changeSet opened =>
    have few := h.later.opened _ opened
    have closed : Sound (n + 1) { r with changeSet := none } := ⟨h.later.listed, nofun⟩
    exact closed.push few
  | component | part | passed => exact ⟨h.later.listed, h.later.opened⟩

/-- Every event keeps a reader sound. -/
theorem sound_of_takes {e : Event} (h : Sound n r) (takes : Takes r e r') : Sound (n + 1) r' := by
  cases e with
  | opening tag => exact sound_of_enters h takes
  | empty tag => exact sound_of_enters h takes
  | closing name => exact sound_of_leaves h takes

theorem sound_of_foldlM {events : List Event} (h : Sound n r) (taken : events.foldlM Reader.step r = .ok r') :
    Sound (n + events.length) r' := by
  refine foldlM_along (fun front mid => Sound (n + front.length) mid) taken ?_ h
  intro front e mid mid' _ sound next
  rw [List.length_append, ← Nat.add_assoc]
  exact sound_of_takes sound (takes_of_step next)

/-! ## Documents -/

/-- A character completes one event at most. -/
theorem length_run_le (s : Xml.Scanner) (cs : List Char) : (s.run cs).1.length ≤ cs.length := by
  induction cs generalizing s with
  | nil => exact Nat.le_refl _
  | cons c rest ih =>
    have later := ih (s.step c).2
    have first : (s.step c).1.toList.length ≤ 1 := by cases (s.step c).1 <;> simp
    simp only [Xml.Scanner.run, List.length_append, List.length_cons]
    omega

theorem length_eventsOf_le (s : String) : (eventsOf s).length ≤ s.length := by
  have marks : (Text.dropMarks s.toList).length ≤ s.toList.length := by
    unfold Text.dropMarks
    exact (List.dropWhile_suffix _).length_le
  have scanned : (eventsOf s).length ≤ (Text.dropMarks s.toList).length := length_run_le _ _
  rw [← String.length_toList]
  omega

/-- The maps of a report that was read fit, and a document has an event for each change. -/
theorem fits_of_ofText {s : String} {report : ChangeReport} (read : ofText s = .ok report) :
    AllFit s.length report.accepted ∧ AllFit s.length report.discarded := by
  obtain ⟨r, taken, -, met⟩ := taken_of_ofText read
  have begun : Sound 0 {} := ⟨nofun, nofun⟩
  have sound := sound_of_foldlM begun taken
  have short := length_eventsOf_le s
  have weaken : ∀ sets, AllFit (0 + (eventsOf s).length) sets → AllFit s.length sets := by
    intro sets fits id l there c member
    have fit := fits id l there c member
    exact { fit with few := by have := fit.few; omega }
  exact (sound.listed report met).imp (weaken _) (weaken _)

/-! ## Normal forms -/

def OneNameEach (sets : Dict (List ReportedChangeSet)) : Prop :=
  ∀ l ∈ sets.values, ∀ c ∈ l, ∀ d ∈ l, c.component.name = d.component.name

theorem normalList_of_fits {id : ItemId} {l : List ReportedChangeSet} (fits : ∀ c ∈ l, Fits n id c)
    (oneName : ∀ c ∈ l, ∀ d ∈ l, c.component.name = d.component.name) : ChangeReport.normalList id l = l := by
  have same : ∀ c ∈ l, (⟨id, (l.head?.map (·.component.name)).getD ""⟩ : Component) = c.component ∧
      (if c.tooMany then c.count else max c.count (.ofNat c.changes.length)) = c.count := by
    intro c member
    obtain ⟨under, counted, -⟩ := fits c member
    constructor
    · cases l with
      | nil => cases member
      | cons d rest =>
        have name : d.component.name = c.component.name := oneName d List.mem_cons_self c member
        simp only [List.head?_cons, Option.map_some, Option.getD_some, name, ← under]
    · split
      · rfl
      · next few =>
        have covered := counted (by simpa using few)
        show (if c.count ≤ UInt64.ofNat c.changes.length then _ else _) = _
        split
        · next below => exact UInt64.le_antisymm covered below
        · rfl
  unfold ChangeReport.normalList
  refine (List.map_congr_left fun c member => ?_).trans (List.map_id' l)
  obtain ⟨component, count⟩ := same c member
  simp only [component, count]

theorem mapEntries_of_fits (fits : AllFit n sets) (oneName : OneNameEach sets) :
    sets.mapEntries ChangeReport.normalList = sets := by
  refine Dict.eq_of_get? fun id => ?_
  rw [Dict.get?_mapEntries]
  cases there : sets.get? id with
  | none => rfl
  | some l =>
    have listed : l ∈ sets.values := List.mem_map_of_mem (Dict.get?_eq_some_iff.1 there)
    exact congrArg some (normalList_of_fits (fits id l there) (oneName l listed))

/-- In a report that was read, every change set is listed under the id of its component, and its count
    covers its changes unless they are too many to list: as words of 64 bits in any document, as
    numbers in one of less than 2^64 characters. When moreover no list has two names for its component
    and all times have four-digit years, the report comes back from the document that is written of
    it. -/
theorem ofText_image {s : String} {report : ChangeReport} (read : ofText s = .ok report) :
    (∀ sets, sets = report.accepted ∨ sets = report.discarded → ∀ id l, sets.get? id = some l → ∀ c ∈ l,
      c.component.id = id ∧
      (c.tooMany = false → UInt64.ofNat c.changes.length ≤ c.count ∧
        (s.length < Text.word64 → c.changes.length ≤ c.count.toNat))) ∧
    (OneNameEach report.accepted → OneNameEach report.discarded → report.InRange →
      ofText (text report) = .ok report) := by
  obtain ⟨accepted, discarded⟩ := fits_of_ofText read
  constructor
  · intro sets which id l there c member
    have fit : Fits s.length id c := by
      rcases which with rfl | rfl
      · exact accepted id l there c member
      · exact discarded id l there c member
    obtain ⟨under, counted, few⟩ := fit
    refine ⟨under, fun listed => ⟨counted listed, fun short => ?_⟩⟩
    have covered := UInt64.le_iff_toNat_le.1 (counted listed)
    have below : c.changes.length < 2 ^ 64 := Nat.lt_of_le_of_lt few short
    rwa [UInt64.toNat_ofNat', Nat.mod_eq_of_lt below] at covered
  · intro oneAccepted oneDiscarded inRange
    have normal : report.normal = report := by
      unfold ChangeReport.normal
      rw [mapEntries_of_fits accepted oneAccepted, mapEntries_of_fits discarded oneDiscarded]
    rw [ofText_text_of_inRange inRange, normal]

/-- A document that is not written of any report: it has no version, an element that means nothing, and
    a change set whose count is below the number of its changes. -/
def foreignText : String := documentOf
  ["<log:changelog", " workspaceItemId='_ws'>", "<note/>", "<discarded/>", "<accepted>",
    "<component", " itemId='_core'", " name='core'>",
    "<changeSet", " itemId='_1'", " date='2024-05-17", "T14:00:00", "+02:00'>",
    "<change", " itemId='_a'", " path='a.txt'", " kind='Added'/>", "</changeSet>",
    "</component>", "</accepted>", "</log:changelog>"]

def foreignSet : ReportedChangeSet where
  id := "_1"
  component := ⟨"_core", "core"⟩
  comment := none
  timestamp := noonOfMay
  changes := [⟨"a.txt", "_a", none, .added⟩]
  workItem := none
  otherWorkItems := []
  tooMany := false
  count := 1

theorem ofText_image_foreign : ∃ report, ofText foreignText = .ok report ∧
    report.accepted.get? "_core" = some [foreignSet] ∧ ofText (text report) = .ok report := by
  have read : ofText foreignText =
      .ok { ChangeReport.empty "_ws" false with accepted := Dict.push ∅ "_core" foreignSet } := by
    rw [ofText, foreignText, toList_documentOf]
    decide +kernel
  refine ⟨_, read, by decide, (ofText_image read).2 ?_ ?_ ?_⟩
  · unfold OneNameEach
    decide
  · unfold OneNameEach
    decide
  · unfold ChangeReport.InRange
    decide

end SandboxFetch.ChangeLog
