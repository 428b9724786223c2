/-
  SandboxFetch.Proofs.Json.Record — typed data that is written and read.

  A list, an option and a map are read back when what they hold is (`asList_ofList`,
  `asOption_ofOption`, `asDict_ofDict`), and a record that is written with keys it knows, each once, is
  looked up as it was written (`asRecord_object`).
-/

import Mathlib.Data.List.Nodup
import SandboxFetch.Json.Record
import SandboxFetch.Proofs.Dict
import SandboxFetch.Proofs.Json.Text
import SandboxFetch.Proofs.Results

namespace SandboxFetch.Json

variable {α β : Type} {read : Json → Except Fault α} {write : α → Json}

/-! ## Reading back -/

theorem asNat_ofNat {limit n : Nat} (h : n < limit) : asNat limit (ofNat n) = .ok n := by
  simp [asNat, ofNat, JsonNumber.ofNat, JsonNumber.toNat?, h]

theorem asOption_of_ne {v : Json} (given : v ≠ .null) : asOption read v = (read v).map some := by
  unfold asOption
  split
  · exact absurd rfl given
  · rfl

theorem asOption_ofOption {o : Option α} (each : ∀ x ∈ o, read (write x) = .ok x) (given : ∀ x, write x ≠ .null) :
    asOption read (ofOption write o) = .ok o := by
  cases o with
  | none => rfl
  | some x =>
    show asOption read (write x) = _
    rw [asOption_of_ne (given x), each x rfl]
    rfl

theorem asList_ofList {xs : List α} (each : ∀ x ∈ xs, read (write x) = .ok x) :
    asList read (ofList write xs) = .ok xs := by
  show (xs.map write).mapM read = .ok xs
  rw [mapM_eq_ok, List.forall₂_map_left_iff, List.forall₂_same]
  exact each

theorem asOption_ofText (o : Option String) : asOption asText (ofOption .text o) = .ok o :=
  asOption_ofOption (fun _ _ => rfl) (fun _ => Json.noConfusion)

theorem asList_ofTexts (texts : List String) : asList asText (ofList .text texts) = .ok texts :=
  asList_ofList fun _ _ => rfl

theorem asDict_ofDict {d : Dict α} (each : ∀ e ∈ d.entries, read (write e.2) = .ok e.2) :
    asDict read (ofDict write d) = .ok d := by
  have entries : (d.entries.map fun e => (e.1, write e.2)).mapM (fun m => do return (m.1, ← read m.2)) =
      .ok d.entries := by
    rw [mapM_eq_ok, List.forall₂_map_left_iff, List.forall₂_same]
    intro e member
    simp only [each e member]
    rfl
  unfold asDict ofDict
  simp only [entries]
  exact congrArg Except.ok (Dict.ofList_toList d)

theorem firstRepeated?_eq_none {keys : List String} : firstRepeated? keys = none ↔ keys.Nodup := by
  induction keys with
  | nil => simp [firstRepeated?]
  | cons k rest ih =>
    rw [List.nodup_cons, ← ih, firstRepeated?]
    by_cases again : k ∈ rest <;> simp [again]

/-- Of an object that a record is read from, the known members come in their order, no key twice. -/
theorem asRecord_object_eq_ok {keys : List String} {members : List (String × Json)} {r : Record} :
    asRecord keys (.object members) = .ok r ↔
      ((members.filter fun m => keys.contains m.1).map (·.1)).Nodup ∧
        r = ⟨members.filter fun m => keys.contains m.1, false⟩ := by
  rw [← firstRepeated?_eq_none, asRecord]
  cases firstRepeated? ((members.filter fun m => keys.contains m.1).map (·.1)) with
  | some key => simp
  | none => simp [eq_comm]

theorem asRecord_object {keys : List String} {members : List (String × Json)} (known : ∀ m ∈ members, m.1 ∈ keys)
    (distinct : (members.map (·.1)).Nodup) : asRecord keys (.object members) = .ok ⟨members, false⟩ := by
  have all : (members.filter fun m => keys.contains m.1) = members :=
    List.filter_eq_self.2 fun m member => List.contains_iff_mem.2 (known m member)
  rw [asRecord_object_eq_ok, all]
  exact ⟨distinct, rfl⟩

namespace Record

variable {r : Record} {key : String} {v : Json} {x : α}

theorem required_eq_ok (found : r.members.lookup key = some v) (done : read v = .ok x) : r.required key read = .ok x := by
  unfold required
  rw [found]
  exact done

theorem withDefault_eq_ok {default : α} (found : r.members.lookup key = some v) (done : read v = .ok x) :
    r.withDefault key default read = .ok x := by
  unfold withDefault
  rw [found]
  exact done

theorem optional_eq_ok {o : Option α} (found : r.members.lookup key = some v) (done : asOption read v = .ok o) :
    r.optional key read = .ok o := by
  unfold optional
  rw [found]
  exact done

end Record

/-! ## Texts -/

theorem parse_toText_append {layout : Layout} (blank : layout.IsBlank) {v : Json} (writable : Writable v)
    (after : List Char) (blankAfter : Blank after) : parse (toText layout v ++ String.ofList after) = .ok v := by
  unfold parse
  rw [ofText?_toText blank writable blankAfter]

theorem parse_toText {layout : Layout} (blank : layout.IsBlank) {v : Json} (writable : Writable v) :
    parse (toText layout v) = .ok v := by
  have none : Blank [] := fun _ member => nomatch member
  rw [← String.append_empty (s := toText layout v)]
  exact parse_toText_append blank writable [] none

@[simp] theorem writable_null : Writable .null := .null

@[simp] theorem writable_bool (b : Bool) : Writable (.bool b) := .bool b

@[simp] theorem writable_text (s : String) : Writable (.text s) := .text s

@[simp] theorem writable_number {n : JsonNumber} : Writable (.number n) ↔ n.HasRoom :=
  ⟨fun | .number room => room, .number⟩

@[simp] theorem writable_array {items : List Json} : Writable (.array items) ↔ ∀ v ∈ items, Writable v :=
  ⟨fun | .array each => each, .array⟩

@[simp] theorem writable_object {members : List (String × Json)} :
    Writable (.object members) ↔ ∀ m ∈ members, Writable m.2 :=
  ⟨fun | .object each => each, .object⟩

@[simp] theorem writable_ofList {xs : List α} : Writable (ofList write xs) ↔ ∀ x ∈ xs, Writable (write x) := by
  simp [ofList]

@[simp] theorem writable_ofOption {o : Option α} : Writable (ofOption write o) ↔ ∀ x ∈ o, Writable (write x) := by
  cases o <;> simp [ofOption]

@[simp] theorem writable_ofDict {d : Dict α} : Writable (ofDict write d) ↔ ∀ e ∈ d.entries, Writable (write e.2) := by
  rw [ofDict, writable_object, List.forall_mem_map]

end SandboxFetch.Json
