/-
  SandboxFetch.Proofs.Load.Identifying — what the digest of a plan says.

  The bytes of an entry are those of its fields, with zero bytes between them and 0xff behind them
  (`PlanEntry.bytes_eq`). The id and the name come first and the folder last, and what is in the
  middle is the scope, however many fields it has. No text has a byte 0xff, and none without U+0000 a
  zero byte, so the bytes can be cut again where they were joined (`fields_of_body`), and the fields of
  an entry say which entry it is (`eq_of_fields`). Two plans that are laid out therefore have the same
  bytes just when they have the same entries, wherever their destinations are (`layOut_identifies`).
-/

import SandboxFetch.Proofs.Load.Folders
import SandboxFetch.Proofs.Text.Utf8

namespace SandboxFetch

variable {set set' : ComponentSet} {c c' : Configuration} {workingDir workingDir' : Path} {host host' : Host}
  {p q : LoadPlan} {e e' : PlanEntry} {es es' : List PlanEntry}

/-! ## Pieces that are joined -/

section Joining

variable {stop : UInt8} {xs ys : List (List UInt8)} (free : ∀ x ∈ xs, stop ∉ x) (free' : ∀ y ∈ ys, stop ∉ y)

theorem intercalate_cons (sep first : List UInt8) (rest : List (List UInt8)) :
    sep.intercalate (first :: rest) = first ++ rest.flatMap (sep ++ ·) := by
  induction rest generalizing first with
  | nil => rw [List.intercalate_singleton, List.flatMap_nil, List.append_nil]
  | cons next rest ih => rw [List.intercalate_cons_cons, ih, List.flatMap_cons, List.append_assoc, List.append_assoc]

include free in
theorem splitOn_closed : (xs.flatMap (· ++ [stop])).splitOn stop = xs ++ [[]] := by
  induction xs with
  | nil => rfl
  | cons x rest ih =>
    obtain ⟨first, others⟩ := List.forall_mem_cons.1 free
    rw [List.flatMap_cons, List.append_assoc, List.singleton_append, List.splitOn_append_cons_self_of_not_mem first,
      ih others, List.cons_append]

include free free' in
/-- Pieces that are each closed by what is in none of them can be told apart. -/
theorem eq_of_closed (same : xs.flatMap (· ++ [stop]) = ys.flatMap (· ++ [stop])) : xs = ys := by
  have same := congrArg (List.splitOn stop) same
  rw [splitOn_closed free, splitOn_closed free'] at same
  exact List.append_cancel_right same

include free free' in
/-- Pieces that are kept apart by what is in none of them can be told apart, when there are some. -/
theorem eq_of_intercalate (some : xs ≠ []) (some' : ys ≠ []) (same : [stop].intercalate xs = [stop].intercalate ys) :
    xs = ys := by
  have same := congrArg (List.splitOn stop) same
  rwa [List.splitOn_intercalate stop free some, List.splitOn_intercalate stop free' some'] at same

end Joining

/-! ## Fields -/

def LoadScope.fields : LoadScope → List String
  | .full => ["full"]
  | .paths selections => "rule" :: selections

/-- The fields of a scope say which one it is. -/
theorem LoadScope.fields_inj {s s' : LoadScope} (same : s.fields = s'.fields) : s = s' := by
  cases s with
  | full =>
    cases s' with
    | full => rfl
    | paths => exact absurd (List.head_eq_of_cons_eq same) (by decide)
  | paths selections =>
    cases s' with
    | full => exact absurd (List.head_eq_of_cons_eq same) (by decide)
    | paths selections' => rw [List.tail_eq_of_cons_eq same]

theorem folderText_eq {folder : Path} (plain : '\\' ∉ folder.text.toList) : folderText folder = folder.text := by
  have kept : ∀ c ∈ folder.text.toList, (if c = '\\' then '/' else c) = c := by
    intro c member
    rw [if_neg]
    rintro rfl
    exact plain member
  rw [folderText, List.map_congr_left kept, List.map_id', String.ofList_toList]

namespace PlanEntry

def fields (e : PlanEntry) : List String :=
  e.component.id :: e.component.name :: (e.scope.fields ++ [folderText e.folder])

def body (e : PlanEntry) : List UInt8 := [0].intercalate (e.fields.map textBytes)

theorem bytes_eq (e : PlanEntry) : e.bytes = e.body ++ [0xff] := by
  unfold PlanEntry.bytes body fields
  rw [List.map_cons, intercalate_cons, List.map_cons, List.flatMap_cons, List.map_append, List.flatMap_append]
  cases e.scope <;> simp [LoadScope.bytes, LoadScope.fields, List.flatMap_map]

theorem top_notMem_body (e : PlanEntry) : 0xff ∉ e.body := by
  unfold body fields
  rw [List.map_cons, intercalate_cons, List.mem_append, List.flatMap_map, List.mem_flatMap]
  rintro (top | ⟨s, -, top⟩)
  · exact top_notMem_textBytes _ top
  · rcases List.mem_cons.1 top with zero | top
    · cases zero
    · exact top_notMem_textBytes s top

/-- No field has the character that stands between them. -/
def NulFree (e : PlanEntry) : Prop := ∀ s ∈ e.fields, '\x00' ∉ s.toList

theorem fields_of_body (free : e.NulFree) (free' : e'.NulFree) (same : e.body = e'.body) : e.fields = e'.fields := by
  have zero {e : PlanEntry} (free : e.NulFree) : ∀ us ∈ e.fields.map textBytes, 0 ∉ us := by
    rintro _ member zero
    obtain ⟨s, field, rfl⟩ := List.mem_map.1 member
    exact free s field ((zero_mem_textBytes s).1 zero)
  have texts := eq_of_intercalate (zero free) (zero free') (by simp [fields]) (by simp [fields]) same
  exact List.map_injective_iff.2 (fun _ _ => textBytes_inj.1) texts

/-- The fields say which entry it is, when its folder is a name that can be used. -/
theorem eq_of_fields (plain : '\\' ∉ e.folder.text.toList) (plain' : '\\' ∉ e'.folder.text.toList)
    (same : e.fields = e'.fields) : e = e' := by
  obtain ⟨⟨id, name⟩, scope, ⟨folder⟩⟩ := e
  obtain ⟨⟨id', name'⟩, scope', ⟨folder'⟩⟩ := e'
  unfold fields at same
  rw [folderText_eq plain, folderText_eq plain'] at same
  simp only [List.cons.injEq] at same
  obtain ⟨rfl, rfl, rest⟩ := same
  obtain ⟨middle, last⟩ := List.append_inj' rest rfl
  rw [LoadScope.fields_inj middle, List.singleton_inj.1 last]

end PlanEntry

/-! ## Plans -/

def ComponentSet.NulFree (set : ComponentSet) : Prop :=
  ∀ s ∈ set.selections, '\x00' ∉ s.component.id.toList ∧ '\x00' ∉ s.component.name.toList ∧
    ∀ rule ∈ s.rule, ∀ selection ∈ rule.selections, '\x00' ∉ selection.toList

namespace PlanEntry

/-- Two entries that mean the same, their folders being compared by place. -/
def SameAs (e e' : PlanEntry) : Prop :=
  e.component = e'.component ∧ e.scope = e'.scope ∧ e.folder.steps = e'.folder.steps

end PlanEntry

namespace LoadPlan

/-- The folder of an entry is a single segment. -/
theorem bare_of_layOut (laid : layOut set c workingDir host = .ok p) (member : e ∈ p.entries) :
    '/' ∉ e.folder.text.toList ∧ '\\' ∉ e.folder.text.toList := by
  obtain ⟨free, folder⟩ := folder_of_layOut laid member
  rw [folder]
  split
  · next on => exact (folderFault?_eq_none.1 (free on)).2
  · decide

theorem nulFree_of_layOut (laid : layOut set c workingDir host = .ok p) (free : set.NulFree) (member : e ∈ p.entries) :
    e.NulFree := by
  obtain ⟨s, selected, made⟩ := exists_of_mem_right (layOut_eq_ok laid).2 member
  obtain ⟨id, name, selections⟩ := free s selected
  obtain ⟨-, component, scope⟩ := entryFor_eq_ok made
  have folder : '\x00' ∉ (folderText e.folder).toList := by
    rw [folderText_eq (bare_of_layOut laid member).2, (folder_of_layOut laid member).2, component]
    split
    · exact name
    · decide
  have scopes : ∀ field ∈ e.scope.fields, '\x00' ∉ field.toList := by
    rw [scope]
    cases rule : s.rule with
    | none => decide
    | some rule => exact List.forall_mem_cons.2 ⟨by decide, selections _ rule⟩
  rw [← component] at id name
  intro field there
  rcases List.mem_cons.1 there with rfl | there
  · exact id
  · rcases List.mem_cons.1 there with rfl | there
    · exact name
    · rcases List.mem_append.1 there with there | there
      · exact scopes field there
      · rw [List.mem_singleton.1 there]
        exact folder

structure Identifies (p q : LoadPlan) : Prop where
  bytes : p.bytes = q.bytes ↔ p.entries = q.entries
  /-- It makes no difference whether folders are compared as they are written or by place. -/
  places : List.Forall₂ PlanEntry.SameAs p.entries q.entries ↔ p.entries = q.entries
  /-- When the bytes have different hashes unless they are the same, the digests tell the plans apart. -/
  digest : (Sha256.hexHash p.bytes = Sha256.hexHash q.bytes → p.bytes = q.bytes) →
    (p.digest = q.digest ↔ p.entries = q.entries)

section TwoPlans

variable (laid : layOut set c workingDir host = .ok p) (laid' : layOut set' c' workingDir' host' = .ok q)

include laid laid'

theorem eq_of_sameAs (member : e ∈ p.entries) (member' : e' ∈ q.entries) (same : e.SameAs e') : e = e' := by
  have bare := (bare_of_layOut laid member).1
  have bare' := (bare_of_layOut laid' member').1
  obtain ⟨component, scope, ⟨folder⟩⟩ := e
  obtain ⟨component', scope', ⟨folder'⟩⟩ := e'
  obtain ⟨components, scopes, places⟩ := same
  rw [PlanEntry.mk.injEq, Path.mk.injEq]
  exact ⟨components, scopes, Path.eq_of_steps_eq bare bare' places⟩

theorem eq_of_body (free : set.NulFree) (free' : set'.NulFree) (member : e ∈ p.entries) (member' : e' ∈ q.entries)
    (same : e.body = e'.body) : e = e' :=
  PlanEntry.eq_of_fields (bare_of_layOut laid member).2 (bare_of_layOut laid' member').2
    (PlanEntry.fields_of_body (nulFree_of_layOut laid free member) (nulFree_of_layOut laid' free' member') same)

/-- Whatever the configurations, working directories and hosts, two plans have the same bytes just when they
    have the same entries. -/
theorem layOut_identifies (free : set.NulFree) (free' : set'.NulFree) : Identifies p q := by
  have bytes : p.bytes = q.bytes ↔ p.entries = q.entries := by
    constructor
    · intro same
      have closed (r : LoadPlan) : r.bytes = (r.entries.map PlanEntry.body).flatMap (· ++ [0xff]) := by
        rw [LoadPlan.bytes, List.flatMap_map, funext PlanEntry.bytes_eq]
      have top (r : LoadPlan) : ∀ us ∈ r.entries.map PlanEntry.body, 0xff ∉ us := by
        intro us member
        obtain ⟨e, -, rfl⟩ := List.mem_map.1 member
        exact e.top_notMem_body
      rw [closed, closed] at same
      have bodies := eq_of_closed (top p) (top q) same
      rw [← List.forall₂_eq_eq_eq, List.forall₂_map_left_iff, List.forall₂_map_right_iff] at bodies
      exact eq_of_forall₂ bodies fun _ member _ member' => eq_of_body laid laid' free free' member member'
    · intro same
      rw [LoadPlan.bytes, LoadPlan.bytes, same]
  refine ⟨bytes, ?_, ?_⟩
  · constructor
    · exact fun same => eq_of_forall₂ same fun _ member _ member' => eq_of_sameAs laid laid' member member'
    · intro same
      rw [same]
      exact List.forall₂_same.2 fun e _ => ⟨rfl, rfl, rfl⟩
  · intro apart
    rw [← bytes]
    exact ⟨apart, congrArg Sha256.hexHash⟩

end TwoPlans

/-! ## Ways to load one component -/

def oneComponent (rule : Option (List String)) : ComponentSet :=
  ⟨.loadAll, [⟨⟨"_c1", "app"⟩, rule.map fun selections => ⟨⟨"_c1", "app"⟩, selections⟩⟩], []⟩

/-- A component is loaded in full, by a rule without paths, by one for the path `full`, by one for a path
    with the name of the component, and by one without paths into a folder of that name. -/
def variants : List (Option (List String) × Bool) :=
  [(none, false), (some [], false), (some ["full"], false), (some ["app"], false), (some [], true)]

def variantPlan (v : Option (List String) × Bool) : LoadPlan :=
  ⟨"/work/out", [⟨⟨"_c1", "app"⟩, (v.1.map .paths).getD .full, if v.2 then "app" else ""⟩]⟩

theorem variants_apart :
    (∀ v ∈ variants,
      layOut (oneComponent v.1) { inFolders with componentFolders := v.2 } "/work" .unix = .ok (variantPlan v)) ∧
    variants.Pairwise fun v w => (variantPlan v).bytes ≠ (variantPlan w).bytes := by
  have laid : ∀ v ∈ variants,
      layOut (oneComponent v.1) { inFolders with componentFolders := v.2 } "/work" .unix = .ok (variantPlan v) := by
    decide +kernel
  have free : ∀ v ∈ variants, (oneComponent v.1).NulFree := by
    unfold ComponentSet.NulFree
    decide +kernel
  have entries : variants.Pairwise fun v w => (variantPlan v).entries ≠ (variantPlan w).entries := by decide +kernel
  refine ⟨laid, entries.imp_of_mem fun {v w} member member' other same => other ?_⟩
  exact (layOut_identifies (laid v member) (laid w member') (free v member) (free w member')).bytes.1 same

end LoadPlan

end SandboxFetch
