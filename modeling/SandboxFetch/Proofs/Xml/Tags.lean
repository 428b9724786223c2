/-
  SandboxFetch.Proofs.Xml.Tags — tags that are scanned back.

  No character of a name means anything in a tag, and a value stands escaped between quotation marks. So
  a tag is scanned as the one event that it was written for, whatever its values are, and its attributes
  come back as they were written (`attributes_tagOf`). A text that is put together from white space,
  instructions and elements around others yields the events of its elements and leaves no tag open
  (`Scans`).
-/

import SandboxFetch.ChangeLog.Writing
import SandboxFetch.Xml.Event

namespace SandboxFetch.Xml

open ChangeLog (Line)

/-! ## Names -/

/-- A character that ends neither a name nor a tag. -/
def isNameChar (c : Char) : Bool := !isSpace c && !(['<', '>', '/', '=', '!', '?', '\x22', '\x27'].contains c)

def IsName (cs : List Char) : Prop := cs ≠ [] ∧ ∀ c ∈ cs, isNameChar c = true

instance (cs : List Char) : Decidable (IsName cs) :=
  decidable_of_iff (cs ≠ [] ∧ cs.all isNameChar = true) (by simp [IsName])

/-- What is in no name is no character of one. -/
theorem ne_of_isNameChar {c d : Char} (h : isNameChar c = true) (other : isNameChar d = false) : c ≠ d := by
  rintro rfl
  rw [h] at other
  cases other

theorem isSpace_of_isNameChar {c : Char} (h : isNameChar c = true) : isSpace c = false := by
  unfold isNameChar at h
  simpa using (Bool.and_eq_true_iff.1 h).1

/-- A name without a prefix is its own local name. -/
theorem localName_of_notMem {name : String} (h : ':' ∉ name.toList) : localName name.toList = name := by
  unfold localName
  rw [Text.cutAt?_eq_none h, String.ofList_toList]

theorem localName_prefixed {front : List Char} (h : ':' ∉ front) (name : String) :
    localName (front ++ ':' :: name.toList) = name := by
  unfold localName
  rw [Text.cutAt?_append h]
  exact String.ofList_toList

theorem quote_notMem_escape (cs : List Char) : '\x22' ∉ escape cs := by
  unfold escape
  intro member
  obtain ⟨c, -, member⟩ := List.mem_flatMap.1 member
  unfold escapeChar at member
  repeat' split at member
  all_goals first
    | exact absurd member (by decide)
    | skip
  next h _ _ _ _ => exact h (List.mem_singleton.1 member).symm

/-! ## Attributes -/

def rawAttribute (a : String × String) : Attribute := ⟨a.1.toList, escape a.2.toList⟩

theorem scan_key (keys : List (List Char)) {key : List Char} (inner : ∀ c ∈ key, isNameChar c = true)
    (before rest : List Char) (new : before.reverse ++ key ∉ keys) :
    Attributes.scanFrom keys (.inKey before) (key ++ '=' :: rest) =
      Attributes.scanFrom keys (.afterEquals (key.reverse ++ before)) rest := by
  induction key generalizing before with
  | nil =>
    rw [List.append_nil] at new
    simp [Attributes.scanFrom, new]
  | cons c key ih =>
    have first := inner c List.mem_cons_self
    have notEquals : c ≠ '=' := ne_of_isNameChar first (by decide)
    rw [List.cons_append, Attributes.scanFrom, if_neg notEquals, isSpace_of_isNameChar first]
    rw [if_neg (by decide), ih (fun d hd => inner d (List.mem_cons_of_mem _ hd)) (c :: before) (by simpa using new)]
    simp

theorem scan_value (keys : List (List Char)) {value : List Char} (plain : '\x22' ∉ value)
    (key before rest : List Char) :
    Attributes.scanFrom keys (.inValue key '\x22' before) (value ++ '\x22' :: rest) =
      .cons ⟨key.reverse, before.reverse ++ value⟩ (Attributes.scanFrom (key.reverse :: keys) .between rest) := by
  induction value generalizing before with
  | nil => simp [Attributes.scanFrom]
  | cons c value ih =>
    obtain ⟨first, others⟩ := List.ne_and_not_mem_of_not_mem_cons plain
    rw [List.cons_append, Attributes.scanFrom, if_neg (Ne.symm first), ih others]
    simp

theorem scan_attributes {keys : List (List Char)} {attributes : List (String × String)}
    (named : ∀ k ∈ attributes.map (·.1), IsName k.toList) (distinct : (attributes.map (·.1)).Nodup)
    (new : ∀ k ∈ attributes.map (·.1), k.toList ∉ keys) :
    Attributes.scanFrom keys .between (attributes.flatMap Line.writeAttribute) =
      ⟨attributes.map rawAttribute, none⟩ := by
  induction attributes generalizing keys with
  | nil => rfl
  | cons a rest ih =>
    obtain ⟨key, value⟩ := a
    rw [List.map_cons, List.nodup_cons] at distinct
    have name := named key (by simp)
    have unseen := new key (by simp)
    -- no key comes twice, so none is refused as a duplicate
    have later : ∀ k ∈ rest.map (·.1), k.toList ∉ key.toList :: keys := by
      intro k hk seen
      rcases List.mem_cons.1 seen with same | seen
      · exact distinct.1 (String.toList_injective same ▸ hk)
      · exact new k (List.mem_cons_of_mem _ hk) seen
    have others := ih (fun k hk => named k (List.mem_cons_of_mem _ hk)) distinct.2 later
    cases spelled : key.toList with
    | nil => exact absurd spelled name.1
    | cons c cs =>
      rw [spelled] at name unseen others
      have first := name.2 c List.mem_cons_self
      have step := scan_key keys (fun d hd => name.2 d (List.mem_cons_of_mem _ hd)) [c]
        ('\x22' :: (escape value.toList ++ '\x22' :: rest.flatMap Line.writeAttribute)) unseen
      have valued := scan_value keys (quote_notMem_escape value.toList) (cs.reverse ++ [c]) []
        (rest.flatMap Line.writeAttribute)
      rw [List.flatMap_cons, Line.writeAttribute, spelled]
      simp only [List.cons_append, List.append_assoc, List.nil_append]
      rw [Attributes.scanFrom, if_pos (by decide), Attributes.scanFrom, isSpace_of_isNameChar first,
        if_neg (by decide), step, Attributes.scanFrom, if_pos (by decide), valued]
      simp only [List.reverse_append, List.reverse_reverse, List.reverse_cons, List.reverse_nil, List.nil_append,
        List.singleton_append, others]
      simp [Attributes.cons, rawAttribute, spelled]

/-! ## Tags -/

/-- A text inside a tag that ends no tag and leaves no quotation open. -/
def Passes (cs : List Char) : Prop :=
  ∀ before openTags, Scanner.run ⟨.tag none before, openTags⟩ cs = ([], ⟨.tag none (cs.reverse ++ before), openTags⟩)

namespace Passes

theorem nil : Passes [] := fun _ _ => rfl

theorem append {xs ys : List Char} (hx : Passes xs) (hy : Passes ys) : Passes (xs ++ ys) := by
  intro before openTags
  have second := hy (xs.reverse ++ before) openTags
  rw [Scanner.run_append, hx]
  simp only [second, List.nil_append, List.reverse_append, List.append_assoc]

theorem flatMap {α : Type} {f : α → List Char} {l : List α} (h : ∀ a ∈ l, Passes (f a)) : Passes (l.flatMap f) := by
  induction l with
  | nil => exact nil
  | cons a rest ih =>
    rw [List.flatMap_cons]
    exact (h a List.mem_cons_self).append (ih fun b hb => h b (List.mem_cons_of_mem _ hb))

theorem char {c : Char} (notEnd : c ≠ '>') (notQuote : c ≠ '\x22') (notApostrophe : c ≠ '\x27') : Passes [c] := by
  intro before openTags
  simp [Scanner.run, Scanner.step, Scanner.stepTag, notEnd, notQuote, notApostrophe]

theorem name {cs : List Char} (h : ∀ c ∈ cs, isNameChar c = true) : Passes cs := by
  induction cs with
  | nil => exact nil
  | cons c rest ih =>
    have inner := h c List.mem_cons_self
    have first : Passes [c] :=
      char (ne_of_isNameChar inner (by decide)) (ne_of_isNameChar inner (by decide)) (ne_of_isNameChar inner (by decide))
    exact first.append (ih fun d hd => h d (List.mem_cons_of_mem _ hd))

theorem quoted {value : List Char} (plain : '\x22' ∉ value) : Passes ('\x22' :: value ++ ['\x22']) := by
  have inside : ∀ (value before : List Char) (openTags : List (List Char)), '\x22' ∉ value →
      Scanner.run ⟨.tag (some '\x22') before, openTags⟩ (value ++ ['\x22']) =
        ([], ⟨.tag none ('\x22' :: value.reverse ++ before), openTags⟩) := by
    intro value
    induction value with
    | nil =>
      intro before openTags _
      simp [Scanner.run, Scanner.step, Scanner.stepTag]
    | cons c value ih =>
      intro before openTags plain
      obtain ⟨first, others⟩ := List.ne_and_not_mem_of_not_mem_cons plain
      have step : Scanner.step ⟨.tag (some '\x22') before, openTags⟩ c =
          (none, ⟨.tag (some '\x22') (c :: before), openTags⟩) := by
        simp [Scanner.step, Scanner.stepTag, Ne.symm first]
      rw [List.cons_append, Scanner.run, step]
      simp only
      rw [ih (c :: before) openTags others]
      simp
  intro before openTags
  have step : Scanner.step ⟨.tag none before, openTags⟩ '\x22' =
      (none, ⟨.tag (some '\x22') ('\x22' :: before), openTags⟩) := by
    simp [Scanner.step, Scanner.stepTag]
  rw [List.cons_append, Scanner.run, step]
  simp only
  rw [inside value ('\x22' :: before) openTags plain]
  simp

theorem pair {a : String × String} (h : IsName a.1.toList) : Passes (Line.writeAttribute a) := by
  have key : Passes (' ' :: a.1.toList ++ ['=']) :=
    ((char (by decide) (by decide) (by decide)).append (name h.2)).append
      (char (by decide) (by decide) (by decide))
  have value : Passes ('\x22' :: escape a.2.toList ++ ['\x22']) := quoted (quote_notMem_escape _)
  have both := key.append value
  simp only [List.cons_append, List.append_assoc, List.nil_append] at both
  simpa [Line.writeAttribute] using both

end Passes

/-- A tag is finished at its closing bracket. -/
theorem run_tag (content : List Char) {c : Char} (first : content.head? = some c)
    (plain : c ≠ '!' ∧ c ≠ '?' ∧ c ≠ '>') (passes : Passes content) (openTags : List (List Char)) :
    Scanner.run ⟨.text, openTags⟩ ('<' :: content ++ ['>']) =
      let finished := Scanner.finishTag ⟨.tag none content.reverse, openTags⟩ content
      (finished.1.toList, finished.2) := by
  obtain ⟨cs, rfl⟩ := List.head?_eq_some_iff.1 first
  have opened : Scanner.step ⟨.text, openTags⟩ '<' = (none, ⟨.opened, openTags⟩) := rfl
  have entered : Scanner.step ⟨.opened, openTags⟩ c = Scanner.step ⟨.tag none [], openTags⟩ c := by
    simp [Scanner.step, Scanner.stepTag, plain]
  have skip : Scanner.run ⟨.opened, openTags⟩ (c :: cs ++ ['>']) =
      Scanner.run ⟨.tag none [], openTags⟩ (c :: cs ++ ['>']) := by
    rw [List.cons_append, Scanner.run, Scanner.run, entered]
  rw [List.cons_append, Scanner.run, opened]
  simp only
  rw [skip, Scanner.run_append, passes]
  simp [Scanner.run, Scanner.step, Scanner.stepTag]

section Elements

variable {name : List Char} {attributes : List (String × String)}

/-- What stands between the angle brackets of a tag, but for a slash. -/
def tagContent (name : List Char) (attributes : List (String × String)) : List Char :=
  name ++ attributes.flatMap Line.writeAttribute

def openingText (name : List Char) (attributes : List (String × String)) : List Char :=
  '<' :: tagContent name attributes ++ ['>']

def emptyText (name : List Char) (attributes : List (String × String)) : List Char :=
  '<' :: tagContent name attributes ++ ['/', '>']

def closingText (name : List Char) : List Char := '<' :: '/' :: name ++ ['>']

def tagOf (name : List Char) (attributes : List (String × String)) : Tag :=
  ⟨name, attributes.flatMap Line.writeAttribute⟩

/-- The attributes of a tag come back as they were written. -/
theorem attributes_tagOf (named : ∀ k ∈ attributes.map (·.1), IsName k.toList)
    (distinct : (attributes.map (·.1)).Nodup) :
    (tagOf name attributes).attributes = ⟨attributes.map rawAttribute, none⟩ :=
  scan_attributes named distinct (by simp)

/-- The name of a tag is what comes before its attributes. -/
theorem ofContent_tagContent (isName : IsName name) : Tag.ofContent (tagContent name attributes) = tagOf name attributes := by
  have inner : ∀ c ∈ name, (!isSpace c) = true := by
    intro c hc
    rw [isSpace_of_isNameChar (isName.2 c hc)]
    rfl
  unfold Tag.ofContent tagContent tagOf
  rw [List.takeWhile_append_of_pos inner, List.dropWhile_append_of_pos inner]
  cases attributes with
  | nil => simp
  | cons a rest =>
    have space : (!isSpace ' ') = false := by decide
    simp [Line.writeAttribute, space]

/-- What stands in a tag begins as its name does. -/
theorem head?_tagContent (isName : IsName name) :
    ∃ c, (tagContent name attributes).head? = some c ∧ isNameChar c = true := by
  unfold tagContent
  cases name with
  | nil => exact absurd rfl isName.1
  | cons c cs => exact ⟨c, rfl, isName.2 c List.mem_cons_self⟩

/-- A tag ends in its name or a quotation mark. -/
theorem getLast?_tagContent (isName : IsName name) : (tagContent name attributes).getLast? ≠ some '/' := by
  intro last
  unfold tagContent at last
  rcases attributes.eq_nil_or_concat with none | ⟨front, a, some⟩
  · rw [none, List.flatMap_nil, List.append_nil] at last
    exact ne_of_isNameChar (isName.2 _ (List.mem_of_getLast? last)) (by decide) rfl
  · rw [some, List.concat_eq_append, List.flatMap_append] at last
    simp [Line.writeAttribute, List.getLast?_cons, List.getLast?_append] at last

variable (isName : IsName name) (named : ∀ k ∈ attributes.map (·.1), IsName k.toList)

include isName named

theorem passes_tagContent : Passes (tagContent name attributes) :=
  (Passes.name isName.2).append (Passes.flatMap fun a ha => Passes.pair (named a.1 (List.mem_map_of_mem ha)))

theorem run_openingTag (openTags : List (List Char)) :
    Scanner.run ⟨.text, openTags⟩ (openingText name attributes) =
      ([.opening (tagOf name attributes)], ⟨.text, name :: openTags⟩) := by
  obtain ⟨c, first, inner⟩ : ∃ c, (tagContent name attributes).head? = some c ∧ isNameChar c = true :=
    head?_tagContent isName
  have notSlash : c ≠ '/' := ne_of_isNameChar inner (by decide)
  have finished : Scanner.finishTag ⟨.tag none (tagContent name attributes).reverse, openTags⟩
      (tagContent name attributes) = (some (.opening (tagOf name attributes)), ⟨.text, name :: openTags⟩) := by
    unfold Scanner.finishTag
    split
    · next heq =>
      rw [heq] at first
      exact absurd (Option.some.inj first).symm notSlash
    · rw [if_neg (getLast?_tagContent isName), ofContent_tagContent isName]
      rfl
  unfold openingText
  rw [run_tag _ first ⟨ne_of_isNameChar inner (by decide), ne_of_isNameChar inner (by decide),
    ne_of_isNameChar inner (by decide)⟩ (passes_tagContent isName named), finished]
  rfl

theorem run_emptyTag (openTags : List (List Char)) :
    Scanner.run ⟨.text, openTags⟩ (emptyText name attributes) =
      ([.empty (tagOf name attributes)], ⟨.text, openTags⟩) := by
  obtain ⟨c, first, inner⟩ : ∃ c, (tagContent name attributes).head? = some c ∧ isNameChar c = true :=
    head?_tagContent isName
  have notSlash : c ≠ '/' := ne_of_isNameChar inner (by decide)
  have first' : (tagContent name attributes ++ ['/']).head? = some c := by
    rw [List.head?_append, first]
    rfl
  have finished : Scanner.finishTag ⟨.tag none (tagContent name attributes ++ ['/']).reverse, openTags⟩
      (tagContent name attributes ++ ['/']) = (some (.empty (tagOf name attributes)), ⟨.text, openTags⟩) := by
    unfold Scanner.finishTag
    split
    · next heq =>
      rw [heq] at first'
      exact absurd (Option.some.inj first').symm notSlash
    · rw [if_pos List.getLast?_concat, List.dropLast_concat, ofContent_tagContent isName]
      rfl
  have scanned := run_tag _ first' ⟨ne_of_isNameChar inner (by decide), ne_of_isNameChar inner (by decide),
    ne_of_isNameChar inner (by decide)⟩
    ((passes_tagContent isName named).append (.char (by decide) (by decide) (by decide))) openTags
  rw [finished] at scanned
  simpa [emptyText] using scanned

omit named

/-- A closing tag closes the tag of its name. -/
theorem run_closingTag (outer : List (List Char)) :
    Scanner.run ⟨.text, name :: outer⟩ (closingText name) = ([.closing name], ⟨.text, outer⟩) := by
  have named : Scanner.closingName name = name := by
    have last : ∀ c ∈ name.reverse, isSpace c = false := by
      intro c hc
      exact isSpace_of_isNameChar (isName.2 c (List.mem_reverse.1 hc))
    have kept : name.reverse.dropWhile isSpace = name.reverse := by
      cases spelled : name.reverse with
      | nil => rfl
      | cons c cs =>
        rw [spelled] at last
        simp [last c List.mem_cons_self]
    unfold Scanner.closingName
    rw [kept, List.reverse_reverse]
    exact ite_self _
  have finished : Scanner.finishTag ⟨.tag none ('/' :: name).reverse, name :: outer⟩ ('/' :: name) =
      (some (.closing name), ⟨.text, outer⟩) := by
    simp [Scanner.finishTag, named]
  have passes : Passes (['/'] ++ name) :=
    (Passes.char (by decide) (by decide) (by decide)).append (.name isName.2)
  have scanned := run_tag ('/' :: name) rfl (by decide) passes (name :: outer)
  rw [finished] at scanned
  exact scanned

end Elements

/-! ## Texts -/

theorem run_text (cs : List Char) (plain : '<' ∉ cs) (openTags : List (List Char)) :
    Scanner.run ⟨.text, openTags⟩ cs = ([], ⟨.text, openTags⟩) := by
  induction cs with
  | nil => rfl
  | cons c rest ih =>
    obtain ⟨first, others⟩ := List.ne_and_not_mem_of_not_mem_cons plain
    have step : Scanner.step ⟨.text, openTags⟩ c = (none, ⟨.text, openTags⟩) := by
      simp [Scanner.step, Ne.symm first]
    rw [Scanner.run, step]
    simp only
    rw [ih others]
    rfl

/-- A text that is scanned as some events and leaves no tag open. -/
def Scans (cs : List Char) (events : List Event) : Prop :=
  ∀ openTags, Scanner.run ⟨.text, openTags⟩ cs = (events, ⟨.text, openTags⟩)

namespace Scans

variable {cs cs' name : List Char} {events events' : List Event} {attributes : List (String × String)}

theorem nil : Scans [] [] := fun _ => rfl

theorem text (plain : '<' ∉ cs) : Scans cs [] := run_text cs plain

theorem append (h : Scans cs events) (h' : Scans cs' events') : Scans (cs ++ cs') (events ++ events') := by
  intro openTags
  rw [Scanner.run_append, h]
  simp only [h' openTags]

theorem flatMap {α : Type} {f : α → List Char} {g : α → List Event} {l : List α} (h : ∀ a ∈ l, Scans (f a) (g a)) :
    Scans (l.flatMap f) (l.flatMap g) := by
  induction l with
  | nil => exact nil
  | cons a rest ih =>
    rw [List.flatMap_cons, List.flatMap_cons]
    exact (h a List.mem_cons_self).append (ih fun b hb => h b (List.mem_cons_of_mem _ hb))

theorem empty (isName : IsName name) (named : ∀ k ∈ attributes.map (·.1), IsName k.toList) :
    Scans (emptyText name attributes) [.empty (tagOf name attributes)] :=
  run_emptyTag isName named

/-- An element around a text. -/
theorem around (isName : IsName name) (named : ∀ k ∈ attributes.map (·.1), IsName k.toList) (inner : Scans cs events) :
    Scans (openingText name attributes ++ cs ++ closingText name)
      (.opening (tagOf name attributes) :: events ++ [.closing name]) := by
  intro openTags
  rw [Scanner.run_append, Scanner.run_append, run_openingTag isName named]
  simp only [inner (name :: openTags), run_closingTag isName]
  rfl

/-- An instruction, such as a declaration, yields nothing. -/
theorem instruction {body : List Char} (plain : '>' ∉ body) : Scans ('<' :: '?' :: body ++ ['?', '>']) [] := by
  have passed : ∀ (body before : List Char) (openTags : List (List Char)), '>' ∉ body →
      Scanner.run ⟨.instruction before, openTags⟩ body = ([], ⟨.instruction (body.reverse ++ before), openTags⟩) := by
    intro body
    induction body with
    | nil =>
      intro before openTags _
      rfl
    | cons c body ih =>
      intro before openTags plain
      obtain ⟨first, others⟩ := List.ne_and_not_mem_of_not_mem_cons plain
      have step : Scanner.step ⟨.instruction before, openTags⟩ c = (none, ⟨.instruction (c :: before), openTags⟩) := by
        simp [Scanner.step, Ne.symm first]
      rw [Scanner.run, step]
      simp only
      rw [ih (c :: before) openTags others]
      simp
  intro openTags
  have opened : Scanner.run ⟨.text, openTags⟩ ['<', '?'] = ([], ⟨.instruction ['?'], openTags⟩) := rfl
  have split : '<' :: '?' :: body ++ ['?', '>'] = ['<', '?'] ++ body ++ ['?', '>'] := rfl
  rw [split, Scanner.run_append, Scanner.run_append, opened]
  simp only [passed body ['?'] openTags plain]
  simp [Scanner.run, Scanner.step, Scanner.resume]

/-- A document is scanned as its events when it is scanned as a text. -/
theorem document (h : Scans cs events) : Document.scan cs = ⟨events, none⟩ := by
  unfold Document.scan Scanner.init
  rw [h]
  rfl

end Scans

end SandboxFetch.Xml
