import VerifierSession.Proofs.Gathering
import VerifierSession.Proofs.Schema

/-!
# The attributes of a finding

What a decoded finding carries stands in one order: what has a place or a title, then a count, then
a rule.  So each of them is found again as it was given.

* `Diagnostic.Tells`: what is found among attributes, what is shown, and how many can place it;
* `Attribute.Orderly`: attributes in their order, with none of a kind twice;
* `Extra.attributes_eq`: the attributes of hints part by part;
* `attributes_of_decode`: a decoded finding is an error with a code, or tells what its hints were.
-/

namespace VerifierSession

/-- Attributes in their order: a position or a title, a count that is an integer, and a rule. -/
def Attribute.Orderly (attributes : List Attribute) : Prop :=
  ∃ (first : Option Attribute) (count : Option Nat) (rule : Option String),
    attributes =
      first.toList ++ count.toList.map Attribute.quantifiers ++ rule.toList.map Attribute.rule ∧
    (∀ a ∈ first, (∃ left right title, a = .positioned left right title) ∨
      ∃ title, a = .title title) ∧
    ∀ n ∈ count, 0 < n ∧ n < Decimal.twoTo 63

namespace Diagnostic

/-- What is found among the attributes, what is shown, and that there is one place at most. -/
structure Tells (d : Diagnostic) (range : Option (Int × Int)) (heading : Option String)
    (removed : Option Nat) (applied : Option String) : Prop where
  offsets : d.offsets = range
  title : d.title = heading
  quantifiersRemoved : d.quantifiersRemoved = removed
  whileRule : d.whileRule = applied
  render : d.render =
    (heading.elim "" fun title => title ++ ": ") ++ d.message ++
      (removed.elim "" fun n => " (quantifiers removed: " ++ toString n ++ ")") ++
      applied.elim "" fun rule => " (rule: " ++ rule ++ ")"
  places : ∀ document, (d.attributes.filterMap (Attribute.place? document)).length ≤ 1

theorem render_eq (d : Diagnostic) :
    d.render =
      (d.title.elim "" fun title => title ++ ": ") ++ d.message ++
        (d.quantifiersRemoved.elim "" fun n => " (quantifiers removed: " ++ toString n ++ ")") ++
        d.whileRule.elim "" fun rule => " (rule: " ++ rule ++ ")" := by
  unfold render
  cases d.title <;> cases d.quantifiersRemoved <;> cases d.whileRule <;> simp

theorem anchorOf_of_no_place {document : Snapshot} {attributes : List Attribute}
    (h : attributes.filterMap (Attribute.place? document) = []) :
    anchorOf document attributes = .ok none := by
  induction attributes with
  | nil => rfl
  | cons first rest ih =>
      cases first with
      | positioned left right title => simp [Attribute.place?] at h
      | word offset => simp [Attribute.place?] at h
      | title title => exact ih h
      | quantifiers count => exact ih h
      | rule name => exact ih h

end Diagnostic

namespace Wire

open Json (Tree)

namespace Extra

def blank : Extra :=
  ⟨none, none, none, none, none⟩

/-- The offsets, if both are given. -/
def offsets (e : Extra) : Option (Int × Int) :=
  match e.left, e.right with
  | some left, some right => some (left, right)
  | _, _ => none

/-- The count of removed quantifiers, if it is positive. -/
def count (e : Extra) : Option Nat :=
  e.quantifiersRemoved.bind fun n => if 0 < n then some n.toNat else none

/-- What comes first among the attributes: the position, or else the title. -/
def first (e : Extra) : Option Attribute :=
  match e.offsets with
  | some (left, right) => some (.positioned left right e.title)
  | none => e.title.map .title

theorem attributes_eq (e : Extra) :
    e.attributes =
      e.first.toList ++ e.count.toList.map .quantifiers ++ e.whileRule.toList.map .rule := by
  obtain ⟨left, right, title, quantifiers, rule⟩ := e
  dsimp only [attributes]
  congr 2
  · cases left <;> cases right <;> cases title <;> rfl
  · cases quantifiers with
    | none => rfl
    | some n => by_cases hn : 0 < n <;> simp [count, hn]

theorem first_cases (e : Extra) :
    (∃ left right, e.left = some left ∧ e.right = some right ∧
        e.first = some (.positioned left right e.title)) ∨
      ((e.left = none ∨ e.right = none) ∧ e.first = e.title.map .title) := by
  obtain ⟨left, right, title, quantifiers, rule⟩ := e
  cases left with
  | none => exact .inr ⟨.inl rfl, rfl⟩
  | some left =>
      cases right with
      | none => exact .inr ⟨.inr rfl, rfl⟩
      | some right => exact .inl ⟨left, right, rfl, rfl, rfl⟩

theorem findSome?_attributes {α : Type} (e : Extra) (f : Attribute → Option α) :
    e.attributes.findSome? f =
      (e.first.bind f).or ((e.count.bind fun n => f (.quantifiers n)).or
        (e.whileRule.bind fun r => f (.rule r))) := by
  have hfirst : e.first.toList.findSome? f = e.first.bind f := by
    cases e.first <;> simp
  have hcount : (e.count.toList.map Attribute.quantifiers).findSome? f =
      e.count.bind fun n => f (.quantifiers n) := by
    cases e.count <;> simp
  have hrule : (e.whileRule.toList.map Attribute.rule).findSome? f =
      e.whileRule.bind fun r => f (.rule r) := by
    cases e.whileRule <;> simp
  rw [attributes_eq, List.findSome?_append, List.findSome?_append, hfirst, hcount, hrule,
    Option.or_assoc]

theorem bind_first_eq_none {α : Type} {e : Extra} {f : Attribute → Option α}
    (hpositioned : ∀ left right title, f (.positioned left right title) = none)
    (htitle : ∀ title, f (.title title) = none) : e.first.bind f = none := by
  rcases e.first_cases with ⟨left, right, -, -, hfirst⟩ | ⟨-, hfirst⟩
  · rw [hfirst]
    exact hpositioned left right e.title
  · rw [hfirst]
    cases e.title with
    | none => rfl
    | some title => exact htitle title

theorem places_attributes (e : Extra) (document : Snapshot) :
    e.attributes.filterMap (Attribute.place? document) =
      (e.first.bind (Attribute.place? document)).toList := by
  have hfirst : e.first.toList.filterMap (Attribute.place? document) =
      (e.first.bind (Attribute.place? document)).toList := by
    cases e.first with
    | none => rfl
    | some a => cases hplace : a.place? document <;> simp [hplace]
  have hcount : (e.count.toList.map Attribute.quantifiers).filterMap
      (Attribute.place? document) = [] := by
    cases e.count <;> rfl
  have hrule : (e.whileRule.toList.map Attribute.rule).filterMap
      (Attribute.place? document) = [] := by
    cases e.whileRule <;> rfl
  rw [attributes_eq, List.filterMap_append, List.filterMap_append, hfirst, hcount, hrule,
    List.append_nil, List.append_nil]

theorem offsets_of_half {e : Extra} (h : e.left = none ∨ e.right = none) : e.offsets = none := by
  unfold offsets
  rcases h with h | h
  · rw [h]
  · rw [h]
    cases e.left <;> rfl

section Tells

variable {e : Extra} {d : Diagnostic} (h : d.attributes = e.attributes)
include h

theorem offsets_eq : d.offsets = e.offsets := by
  rw [Diagnostic.offsets, h, findSome?_attributes]
  rcases e.first_cases with ⟨left, right, hleft, hright, hfirst⟩ | ⟨hhalf, hfirst⟩
  · simp [hfirst, offsets, hleft, hright]
  · rw [hfirst, offsets_of_half hhalf]
    cases e.title <;> simp

theorem title_eq : d.title = e.title := by
  rw [Diagnostic.title, h, findSome?_attributes]
  rcases e.first_cases with ⟨left, right, -, -, hfirst⟩ | ⟨-, hfirst⟩
  · simp [hfirst]
  · rw [hfirst]
    cases e.title <;> simp

theorem quantifiersRemoved_eq : d.quantifiersRemoved = e.count := by
  rw [Diagnostic.quantifiersRemoved, h, findSome?_attributes,
    bind_first_eq_none (fun _ _ _ => rfl) fun _ => rfl]
  simp

theorem whileRule_eq : d.whileRule = e.whileRule := by
  rw [Diagnostic.whileRule, h, findSome?_attributes,
    bind_first_eq_none (fun _ _ _ => rfl) fun _ => rfl]
  simp

theorem tells : d.Tells e.offsets e.title e.count e.whileRule where
  offsets := offsets_eq h
  title := title_eq h
  quantifiersRemoved := quantifiersRemoved_eq h
  whileRule := whileRule_eq h
  render := by
    rw [d.render_eq, title_eq h, quantifiersRemoved_eq h, whileRule_eq h]
  places := by
    intro document
    rw [h, places_attributes]
    cases e.first.bind (Attribute.place? document) <;> simp

end Tells

theorem mem_attributes {e : Extra} {a : Attribute} :
    a ∈ e.attributes ↔ e.first = some a ∨ (∃ n, e.count = some n ∧ .quantifiers n = a) ∨
      ∃ rule, e.whileRule = some rule ∧ .rule rule = a := by
  simp only [attributes_eq, List.mem_append, List.mem_map, Option.mem_toList, or_assoc]

theorem positioned_mem_attributes {e : Extra} {left right : Int} {title : Option String} :
    .positioned left right title ∈ e.attributes ↔
      e.left = some left ∧ e.right = some right ∧ e.title = title := by
  rw [mem_attributes]
  rcases e.first_cases with ⟨left', right', hleft, hright, hfirst⟩ | ⟨hhalf, hfirst⟩
  · simp [hfirst, hleft, hright]
  · have hnone : ¬ (e.left = some left ∧ e.right = some right ∧ e.title = title) := by
      rintro ⟨hleft, hright, -⟩
      simp [hleft, hright] at hhalf
    simp [hfirst, hnone]

theorem word_not_mem_attributes (e : Extra) (offset : Int) : .word offset ∉ e.attributes := by
  rw [mem_attributes]
  rcases e.first_cases with ⟨left, right, -, -, hfirst⟩ | ⟨-, hfirst⟩
  · simp [hfirst]
  · simp [hfirst]

theorem anchorOf_of_half {e : Extra} (h : e.left = none ∨ e.right = none) (document : Snapshot) :
    Diagnostic.anchorOf document e.attributes = .ok none := by
  apply Diagnostic.anchorOf_of_no_place
  rw [places_attributes]
  rcases e.first_cases with ⟨left, right, hleft, hright, -⟩ | ⟨-, hfirst⟩
  · simp [hleft, hright] at h
  · rw [hfirst]
    cases e.title <;> rfl

theorem count_lt_of_isExtra {tree : Tree} {e : Extra} (h : IsExtra tree e) :
    ∀ n ∈ e.count, 0 < n ∧ n < Decimal.twoTo 63 := by
  intro n hn
  obtain ⟨m, hm, hn⟩ := Option.bind_eq_some_iff.1 hn
  have hread := h.quantifiersRemoved
  rw [hm] at hread
  obtain ⟨t, -, -, -, hlt⟩ := hread
  split at hn
  · next hpositive =>
      cases hn
      omega
  · cases hn

theorem orderly_attributes {e : Extra} (hcount : ∀ n ∈ e.count, 0 < n ∧ n < Decimal.twoTo 63) :
    Attribute.Orderly e.attributes := by
  refine ⟨e.first, e.count, e.whileRule, e.attributes_eq, ?_, hcount⟩
  intro a ha
  rcases e.first_cases with ⟨left, right, -, -, hfirst⟩ | ⟨-, hfirst⟩
  · rw [hfirst] at ha
    cases ha
    exact .inl ⟨left, right, e.title, rfl⟩
  · rw [hfirst] at ha
    obtain ⟨title, -, rfl⟩ := Option.map_eq_some_iff.1 ha
    exact .inr ⟨title, rfl⟩

end Extra

/-! ## Findings -/

/--
What a decoded finding carries.  It is an error with a code, with the word at its position and its
title; or else its attributes stand in order, and tell what the hints were: a position where both
offsets were given, and otherwise none and the title alone, a count that was positive, and a rule.
-/
theorem attributes_of_decode {line : String} {d : Diagnostic}
    (h : decode line = .ok (.diagnostic d)) :
    (∃ body tree name code pos descr, Text.trim line.toList = "JSON-ERC-".toList ++ body ∧
      Json.Denotes body tree ∧ IsCodeError tree name code pos descr ∧
      d = ⟨.error, descr, none,
        [.word pos, .title (name ++ " (code " ++ toString code ++ ")")], none⟩ ∧
      d.Tells none (some (name ++ " (code " ++ toString code ++ ")")) none none) ∨
    ∃ tree hints e, Json.Denotes (Text.trim line.toList) tree ∧ IsFinding tree d ∧
      MayHave IsExtra tree "extra" 3 hints ∧ e = hints.getD .blank ∧
      Attribute.Orderly d.attributes ∧ (∀ offset, .word offset ∉ d.attributes) ∧
      (∀ left right title, .positioned left right title ∈ d.attributes ↔
        e.left = some left ∧ e.right = some right ∧ e.title = title) ∧
      ((e.left = none ∨ e.right = none) → ∀ document, d.anchor document = .ok none) ∧
      d.Tells e.offsets e.title e.count e.whileRule := by
  have hconforms := ((decode_conforms line).1 _).1 h
  generalize Text.trim line.toList = text at hconforms ⊢
  generalize hreport : Report.diagnostic d = report at hconforms
  cases hconforms with
  | @codeError body tree name descr code pos hdenotes herror =>
      cases hreport
      refine .inl ⟨body, tree, name, code, pos, descr, rfl, hdenotes, herror, rfl, ?_⟩
      exact ⟨rfl, rfl, rfl, rfl, Diagnostic.render_eq _, fun _ => by simp [Attribute.place?]⟩
  | @finding _ tree d' _ hdenotes hfinding =>
      cases hreport
      -- Without hints a finding has the attributes of hints that say nothing.
      obtain ⟨hints, hhints, hattributes⟩ := hfinding.extra
      have hd : d.attributes = (hints.getD .blank).attributes := by
        rw [hattributes]
        cases hints <;> rfl
      have hcount : ∀ n ∈ (hints.getD .blank).count, 0 < n ∧ n < Decimal.twoTo 63 := by
        cases hints with
        | none => simp [Extra.blank, Extra.count]
        | some e =>
            obtain ⟨t, -, he⟩ := hhints
            exact Extra.count_lt_of_isExtra he
      refine .inr ⟨tree, hints, _, hdenotes, hfinding, hhints, rfl, ?_, ?_, ?_, ?_, Extra.tells hd⟩
      · rw [hd]
        exact Extra.orderly_attributes hcount
      · rw [hd]
        exact Extra.word_not_mem_attributes _
      · intro left right title
        rw [hd]
        exact Extra.positioned_mem_attributes
      · intro hhalf document
        rw [Diagnostic.anchor, hd]
        exact Extra.anchorOf_of_half hhalf document
  | stream => cases hreport

/-- An error with one of its offsets only, a title, and a count that is negative. -/
def halfLine : String :=
  "\x7b\"level\":\"ERR\",\"message\":\"m\",\"extra\":\x7b\"offsetLeft\":1,\"offsetRight\":null," ++
    "\"title\":\"t\",\"quantifiersRemoved\":-1,\"whileRule\":\"Sync\"\x7d\x7d"

def halfFinding : Diagnostic :=
  ⟨.error, "m", none, [.title "t", .rule "Sync"], none⟩

theorem anchor_of_halfLine :
    decode halfLine = .ok (.diagnostic halfFinding) ∧
      (∀ document, halfFinding.anchor document = .ok none) ∧
      halfFinding.render = "t: m (rule: Sync)" := by
  have hdecode : decode halfLine = .ok (.diagnostic halfFinding) := by decide +kernel
  refine ⟨hdecode, ?_, by decide⟩
  rcases attributes_of_decode hdecode with ⟨_, _, name, code, pos, descr, -, -, -, hcode, -⟩ |
      ⟨_, _, e, -, -, -, -, -, -, hpositioned, hhalf, -⟩
  · cases hcode
  · apply hhalf
    -- With both offsets there would be a position among the attributes.
    by_contra hboth
    obtain ⟨hleft, hright⟩ := not_or.1 hboth
    obtain ⟨left, hleft⟩ := Option.ne_none_iff_exists'.1 hleft
    obtain ⟨right, hright⟩ := Option.ne_none_iff_exists'.1 hright
    have hmem := (hpositioned left right e.title).2 ⟨hleft, hright, rfl⟩
    simp [halfFinding] at hmem

end Wire
end VerifierSession
