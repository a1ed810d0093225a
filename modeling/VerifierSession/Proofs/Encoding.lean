import VerifierSession.Proofs.Written
import VerifierSession.Wire

/-!
# Records as they are written

A record is an object with the members that its parts call for, in any order; parts that are absent
are left out.  Decoding gives the parts back.

* `Hints`: what a finding may say beside its message;
* `findingMembers`, `codeErrorMembers` and `streamMembers`: the members of the three records;
* `fill`: a field and what is written for it, which fit each other (`fits_required`,
  `fits_nullable`).
-/

namespace VerifierSession
namespace Wire

open Json (Field Filling IsObject Member Value digits quote)

/-! ## Records -/

def levelOf : Severity → String
  | .info => "INFO"
  | .warning => "WARN"
  | .error => "ERR"
  | .debug => "DEBUG"

def member {α : Type} (name : String) (write : α → List Char) (part : Option α) : List Member :=
  part.toList.map fun a => (name, write a)

structure Hints where
  offsets : Option (Int64 × Int64) := none
  title : Option String := none
  count : Option Nat := none
  rule : Option String := none
  count_bounds : ∀ n, count = some n → 0 < n ∧ n < Decimal.twoTo 63

namespace Hints

def members (h : Hints) : List Member :=
  member "offsetLeft" (fun o => digits o.1.toInt) h.offsets ++
  member "offsetRight" (fun o => digits o.2.toInt) h.offsets ++
  member "title" quote h.title ++
  member "quantifiersRemoved" (fun n : Nat => digits n) h.count ++
  member "whileRule" quote h.rule

/-- The attributes that hints stand for; a title goes with the offsets if there are any. -/
def attributes (h : Hints) : List Attribute :=
  (match h.offsets with
    | some (left, right) => [.positioned left.toInt right.toInt h.title]
    | none => h.title.toList.map .title) ++
  h.count.toList.map .quantifiers ++ h.rule.toList.map .rule

end Hints

/-- The members of a finding, whose hints are written already. -/
def findingMembers (severity : Severity) (message : String) (timestamp : Option String)
    (extra : Option (List Char)) : List Member :=
  [("level", quote (levelOf severity))] ++ member "timestamp" quote timestamp ++
  [("message", quote message)] ++ member "extra" id extra

def codeErrorMembers (name : String) (code pos : Int64) (descr : String) : List Member :=
  [("name", quote name), ("code", digits code.toInt), ("pos", digits pos.toInt),
    ("descr", quote descr)]

def streamMembers (name : Option String) (descr : String) : List Member :=
  member "name" quote name ++ [("descr", quote descr)]

/-! ## Fields -/

/-- A field, and what is written for it. -/
def fill {α : Type} (field : Field) (write : α → List Char) (value : α → Value) (part : Option α) :
    Filling :=
  ⟨field, part.map fun a => (write a, value a)⟩

section Fill

variable {α : Type} {read : Json.Reader Value} {write : α → List Char} {value : α → Value}

theorem filterMap_fill (field : Field) (part : Option α) (fs : List Filling) :
    (fill field write value part :: fs).filterMap Filling.member? =
      member field.name write part ++ fs.filterMap Filling.member? := by
  cases part <;> rfl

theorem fits_required (name : String) {a : α} (h : Json.Reads read (write a) (value a)) :
    (fill (required name read) write value (some a)).Fits := by
  constructor
  · intro text v hcontent
    cases hcontent
    exact h
  · intro hnone
    cases hnone

/-- A field that may be `null` fits what its reader reads, and it may be absent. -/
theorem fits_nullable {field : Field} (hread : field.read = Json.readNullable read)
    (hunnamed : field.unnamed = some .null) (part : Option α)
    (h : ∀ a, part = some a → Json.Reads read (write a) (value a) ∧ Json.Begins (write a)) :
    (fill field write value part).Fits := by
  constructor
  · intro text v hcontent
    rcases Option.map_eq_some_iff.1 hcontent with ⟨a, ha, heq⟩
    cases heq
    rcases h a ha with ⟨hreads, hbegins⟩
    exact hread ▸ Json.reads_nullable hreads hbegins
  · intro _
    simp [fill, hunnamed]

end Fill

theorem reads_toInt (n : Int64) :
    Json.Reads Json.readInteger (digits n.toInt) (.integer n.toInt) := by
  have hlow := n.le_toInt
  have hhigh := n.toInt_lt
  have htwo : Decimal.twoTo 63 = 9223372036854775808 := by decide
  apply Json.reads_integer
  · rw [htwo]
    simpa using hlow
  · rw [htwo]
    simpa using hhigh

/-! ## Hints -/

namespace Hints

/-- The fields of hints, and what is written for them. -/
def fillings (h : Hints) : List Filling :=
  [fill (optional "offsetLeft" Json.readInteger) (fun o => digits o.1.toInt)
      (fun o => .integer o.1.toInt) h.offsets,
    fill (optional "offsetRight" Json.readInteger) (fun o => digits o.2.toInt)
      (fun o => .integer o.2.toInt) h.offsets,
    fill (optional "title" Json.readText) quote .text h.title,
    fill (optional "quantifiersRemoved" Json.readInteger) (fun n : Nat => digits n)
      (fun n : Nat => .integer n) h.count,
    fill (optional "whileRule" Json.readText) quote .text h.rule]

theorem members_fillings (h : Hints) : h.fillings.filterMap Filling.member? = h.members := by
  simp [fillings, members, filterMap_fill, optional]

theorem fits_fillings (h : Hints) : ∀ f ∈ h.fillings, f.Fits := by
  have htexts : ∀ (name : String) (part : Option String),
      (fill (optional name Json.readText) quote .text part).Fits := by
    intro name part
    exact fits_nullable rfl rfl part fun s _ => ⟨Json.reads_text s, Json.begins_quote s⟩
  intro f hf
  simp only [fillings, List.mem_cons, List.not_mem_nil, or_false] at hf
  rcases hf with rfl | rfl | rfl | rfl | rfl
  · exact fits_nullable rfl rfl h.offsets fun o _ => ⟨reads_toInt o.1, Json.begins_digits _⟩
  · exact fits_nullable rfl rfl h.offsets fun o _ => ⟨reads_toInt o.2, Json.begins_digits _⟩
  · exact htexts "title" h.title
  · have hcount : ∀ n, h.count = some n → Json.Reads Json.readInteger (digits n) (.integer n) := by
      intro n hn
      have hbound := (h.count_bounds n hn).2
      exact Json.reads_integer (by omega) (by omega)
    exact fits_nullable rfl rfl h.count fun n hn => ⟨hcount n hn, Json.begins_digits _⟩
  · exact htexts "whileRule" h.rule

theorem attributes_fillings (h : Hints) :
    (extraOf? (.record (h.fillings.map Filling.value))).map Extra.attributes =
      some h.attributes := by
  rcases h with ⟨offsets, title, count, rule, hbounds⟩
  have hcount : ∀ n, count = some n → 0 < n := fun n hn => (hbounds n hn).1
  -- Each part is there or not, and the attributes are made of those that are.
  cases offsets <;> cases title <;> cases count <;> cases rule <;>
    simp_all [fillings, fill, Filling.value, optional, extraOf?, integerOf?, textOf?,
      Extra.attributes, attributes]

end Hints

/-! ## Decoding -/

/-- A record that was written is read as the values of its fields. -/
theorem readWhole_isObject {fs : List Filling} {text : List Char}
    (hfields : (fs.map fun f => f.field.name).Nodup) (hfits : ∀ f ∈ fs, f.Fits)
    (hobject : IsObject (fs.filterMap Filling.member?) text) (title : String) :
    Json.readWhole (Json.readRecord title (fs.map Filling.field)) text =
      .ok (fs.map Filling.value) := by
  rcases Json.readRecord_isObject hfields title hfits hobject [] .start with ⟨place, hread⟩
  exact Json.readWhole_eq hread

/-- Hints are read as the values of their fields, wherever they stand in a finding. -/
theorem reads_extra {h : Hints} {text : List Char} (hobject : IsObject h.members text) :
    Json.Reads readExtra text (.record (h.fillings.map Filling.value)) := by
  intro rest place _
  have hfields : (h.fillings.map fun f => f.field.name).Nodup := by
    simp [Hints.fillings, fill, optional]
  rw [← h.members_fillings] at hobject
  rcases Json.readRecord_isObject hfields "struct WireExtra" h.fits_fillings hobject rest place with
    ⟨place', hread⟩
  have hfieldlist : h.fillings.map Filling.field = extraFields := rfl
  rw [hfieldlist] at hread
  exact ⟨place', by simp [readExtra, hread, bind, Except.bind, pure, Except.pure]⟩

/-- The fields of a finding, and what is written for them. -/
def findingFillings (severity : Severity) (message : String) (timestamp : Option String)
    (extra : Option (Hints × List Char)) : List Filling :=
  [fill (required "level" Json.readText) quote .text (some (levelOf severity)),
    fill (omissible "timestamp" Json.readText) quote .text timestamp,
    fill (required "message" Json.readText) quote .text (some message),
    fill (omissible "extra" readExtra) Prod.snd
      (fun e => .record (e.1.fillings.map Filling.value)) extra]

section Findings

variable (severity : Severity) (message : String) (timestamp : Option String)
  (extra : Option (Hints × List Char))

theorem fits_findingFillings (hextra : ∀ h text, extra = some (h, text) → IsObject h.members text) :
    ∀ f ∈ findingFillings severity message timestamp extra, f.Fits := by
  intro f hf
  simp only [findingFillings, List.mem_cons, List.not_mem_nil, or_false] at hf
  rcases hf with rfl | rfl | rfl | rfl
  · exact fits_required "level" (Json.reads_text _)
  · exact fits_nullable rfl rfl timestamp fun s _ => ⟨Json.reads_text s, Json.begins_quote s⟩
  · exact fits_required "message" (Json.reads_text _)
  · refine fits_nullable rfl rfl extra ?_
    rintro ⟨h, text⟩ he
    have hobject := hextra h text he
    exact ⟨reads_extra hobject, Json.begins_isObject hobject⟩

theorem ofTag?_levelOf : Severity.ofTag? (levelOf severity) = some severity := by
  cases severity <;> decide

theorem findingOf_value :
    (findingFillings severity message timestamp extra).map Filling.value =
        [.text (levelOf severity), (timestamp.map .text).getD .null, .text message,
          (extra.map fun e => .record (e.1.fillings.map Filling.value)).getD .null] ∧
      findingOf (.text (levelOf severity)) ((timestamp.map .text).getD .null) (.text message)
          ((extra.map fun e => .record (e.1.fillings.map Filling.value)).getD .null) =
        .ok ⟨severity, message, timestamp, (extra.map fun e => e.1.attributes).getD [], none⟩ := by
  constructor
  · cases timestamp <;> cases extra <;>
      simp [findingFillings, fill, Filling.value, required, omissible]
  · -- Each part is found again in its value.
    have hlevel := ofTag?_levelOf severity
    have hstamp : textOf? ((timestamp.map .text).getD .null) = timestamp := by
      cases timestamp <;> rfl
    have hattributes : ((extraOf? ((extra.map fun e =>
        .record (e.1.fillings.map Filling.value)).getD .null)).map Extra.attributes).getD [] =
          (extra.map fun e => e.1.attributes).getD [] := by
      cases extra with
      | none => rfl
      | some e => simp [e.1.attributes_fillings]
    have htext : ∀ s, textOf (.text s) = s := fun _ => rfl
    simp [findingOf, htext, hlevel, hstamp, hattributes]

theorem decodeFinding_isObject {line : List Char}
    (hextra : ∀ h text, extra = some (h, text) → IsObject h.members text)
    (hline : IsObject (findingMembers severity message timestamp (extra.map Prod.snd)) line) :
    decodeFinding line =
      .ok (.diagnostic ⟨severity, message, timestamp,
        (extra.map fun e => e.1.attributes).getD [], none⟩) := by
  have hmembers : (findingFillings severity message timestamp extra).filterMap Filling.member? =
      findingMembers severity message timestamp (extra.map Prod.snd) := by
    cases extra <;>
      simp [findingFillings, findingMembers, filterMap_fill, required, omissible, member]
  have hfields : ((findingFillings severity message timestamp extra).map
      fun f => f.field.name).Nodup := by
    simp [findingFillings, fill, required, omissible]
  rw [← hmembers] at hline
  have hread := readWhole_isObject hfields
    (fits_findingFillings severity message timestamp extra hextra) hline "struct WireRecord"
  rcases findingOf_value severity message timestamp extra with ⟨hvalues, hfinding⟩
  have hfieldlist : (findingFillings severity message timestamp extra).map Filling.field =
      findingFields := rfl
  rw [hfieldlist, hvalues] at hread
  simp [decodeFinding, hread, hfinding]

end Findings

theorem decodeCodeError_isObject (name : String) (code pos : Int64) (descr : String)
    {body : List Char} (hbody : IsObject (codeErrorMembers name code pos descr) body) :
    decodeCodeError body =
      .ok (.diagnostic ⟨.error, descr, none,
        [.word pos.toInt, .title (name ++ " (code " ++ toString code.toInt ++ ")")], none⟩) := by
  let fs : List Filling :=
    [fill (required "name" Json.readText) quote .text (some name),
      fill (required "code" Json.readInteger) digits .integer (some code.toInt),
      fill (required "pos" Json.readInteger) digits .integer (some pos.toInt),
      fill (required "descr" Json.readText) quote .text (some descr)]
  have hfits : ∀ f ∈ fs, f.Fits := by
    intro f hf
    simp only [fs, List.mem_cons, List.not_mem_nil, or_false] at hf
    rcases hf with rfl | rfl | rfl | rfl
    · exact fits_required "name" (Json.reads_text _)
    · exact fits_required "code" (reads_toInt code)
    · exact fits_required "pos" (reads_toInt pos)
    · exact fits_required "descr" (Json.reads_text _)
  have hfields : (fs.map fun f => f.field.name).Nodup := by simp [fs, fill, required]
  have hread := readWhole_isObject hfields hfits hbody "struct CodeError"
  have hfieldlist : fs.map Filling.field = codeErrorFields := rfl
  have hvalues : fs.map Filling.value =
      [.text name, .integer code.toInt, .integer pos.toInt, .text descr] := rfl
  rw [hfieldlist, hvalues] at hread
  simp [decodeCodeError, hread, codeErrorOf, textOf, textOf?, integerOf, integerOf?]

theorem decodeStream_isObject (tag : String) (name : Option String) (descr : String)
    {body : List Char} (hbody : IsObject (streamMembers name descr) body) :
    decodeStream tag body = .ok (.stream (classOf tag) (name.getD tag) descr) := by
  let fs : List Filling :=
    [fill (omissible "name" Json.readText) quote .text name,
      fill (required "descr" Json.readText) quote .text (some descr)]
  have hmembers : fs.filterMap Filling.member? = streamMembers name descr := by
    simp [fs, streamMembers, filterMap_fill, required, omissible, member]
  have hfits : ∀ f ∈ fs, f.Fits := by
    intro f hf
    simp only [fs, List.mem_cons, List.not_mem_nil, or_false] at hf
    rcases hf with rfl | rfl
    · exact fits_nullable rfl rfl name fun s _ => ⟨Json.reads_text s, Json.begins_quote s⟩
    · exact fits_required "descr" (Json.reads_text _)
  have hfields : (fs.map fun f => f.field.name).Nodup := by simp [fs, fill, required, omissible]
  have hread := readWhole_isObject hfields hfits (hmembers ▸ hbody) "struct StreamRecord"
  have hfieldlist : fs.map Filling.field = streamFields := rfl
  have hvalues : fs.map Filling.value = [(name.map .text).getD .null, .text descr] := by
    cases name <;> rfl
  rw [hfieldlist, hvalues] at hread
  cases name <;> simp [decodeStream, hread, textOf, textOf?]

/-! ## Lines -/

theorem trim_of_ends {first last : Char} (hfirst : Text.isBlank first = false)
    (hlast : Text.isBlank last = false) (cs : List Char) :
    Text.trim (first :: (cs ++ [last])) = first :: (cs ++ [last]) := by
  simp [Text.trim, Text.trimEnd, hfirst, hlast]

theorem decodeTagged_append {tag : List Char} (htag : '-' ∉ tag) (body : List Char) :
    decodeTagged (tag ++ '-' :: body) =
      if tag = ['E', 'R', 'C'] then decodeCodeError body
      else decodeStream (String.ofList tag) body := by
  have hall : ∀ c ∈ tag, (c != '-') = true := by
    intro c hc
    have hne : c ≠ '-' := fun heq => htag (heq ▸ hc)
    simpa using hne
  have htake : (tag ++ '-' :: body).takeWhile (· != '-') = tag := by
    simp [List.takeWhile_append_of_pos hall]
  have hdrop : (tag ++ '-' :: body).dropWhile (· != '-') = '-' :: body := by
    simp [List.dropWhile_append_of_pos hall]
  rw [decodeTagged, htake, hdrop]

theorem decode_of_decodeTrimmed {first last : Char} (hfirst : Text.isBlank first = false)
    (hlast : Text.isBlank last = false) {cs : List Char} {report : Report}
    (h : decodeTrimmed (first :: (cs ++ [last])) = .ok report) :
    decode (String.ofList (first :: (cs ++ [last]))) = .ok report := by
  simp [decode, trim_of_ends hfirst hlast, h]

theorem tagMark_eq : tagMark = ['J', 'S', 'O', 'N', '-'] := rfl

theorem decode_object {members : List Member} {line : List Char} (hline : IsObject members line)
    {report : Report} (h : decodeFinding line = .ok report) :
    decode (String.ofList line) = .ok report := by
  -- An object begins with its bracket, so there is neither a mark nor anything to trim.
  rcases Json.exists_of_isObject hline with ⟨inner, rfl⟩
  apply decode_of_decodeTrimmed (by decide) (by decide)
  simpa [decodeTrimmed, tagMark_eq] using h

/-- A line that ends in an object behind a tag is a tagged record. -/
theorem decode_tagged {members : List Member} {body : List Char} (hbody : IsObject members body)
    (tag : List Char) {report : Report} (h : decodeTagged (tag ++ '-' :: body) = .ok report) :
    decode (String.ofList ("JSON-".toList ++ (tag ++ '-' :: body))) = .ok report := by
  rcases Json.exists_of_isObject hbody with ⟨inner, rfl⟩
  have hline : "JSON-".toList ++ (tag ++ '-' :: '\x7b' :: (inner ++ ['\x7d'])) =
      'J' :: ((['S', 'O', 'N', '-'] ++ tag ++ '-' :: '\x7b' :: inner) ++ ['\x7d']) := by
    simp
  rw [hline]
  apply decode_of_decodeTrimmed (by decide) (by decide)
  simpa [decodeTrimmed, tagMark_eq] using h

/--
Decoding a record gives back what was written.  A finding has its severity, message, timestamp and
attributes, an error with a code its position and a title, and a message about the run its class,
its name, or else its tag, and its description.
-/
theorem decode_isObject :
    (∀ severity message timestamp extra line,
      (∀ h text, extra = some (h, text) → IsObject (Hints.members h) text) →
      IsObject (findingMembers severity message timestamp (extra.map Prod.snd)) line →
      decode (String.ofList line) =
        .ok (.diagnostic ⟨severity, message, timestamp,
          (extra.map fun e => e.1.attributes).getD [], none⟩)) ∧
    (∀ name code pos descr body, IsObject (codeErrorMembers name code pos descr) body →
      decode (String.ofList ("JSON-ERC-".toList ++ body)) =
        .ok (.diagnostic ⟨.error, descr, none,
          [.word pos.toInt, .title (name ++ " (code " ++ toString code.toInt ++ ")")], none⟩)) ∧
    (∀ (tag : String) name descr body, '-' ∉ tag.toList → tag ≠ "ERC" →
      IsObject (streamMembers name descr) body →
      decode (String.ofList ("JSON-".toList ++ (tag.toList ++ '-' :: body))) =
        .ok (.stream
          (if tag = "ERS" then .fatal else if tag = "WRN" then .warning else .informational)
          (name.getD tag) descr)) := by
  refine ⟨?_, ?_, ?_⟩
  · intro severity message timestamp extra line hextra hline
    exact decode_object hline (decodeFinding_isObject severity message timestamp extra hextra hline)
  · intro name code pos descr body hbody
    have hdecode : decodeTagged (['E', 'R', 'C'] ++ '-' :: body) = decodeCodeError body := by
      rw [decodeTagged_append (by decide), if_pos rfl]
    rw [decodeCodeError_isObject name code pos descr hbody] at hdecode
    exact decode_tagged hbody ['E', 'R', 'C'] hdecode
  · intro tag name descr body htag herc hbody
    have hother : tag.toList ≠ ['E', 'R', 'C'] := by
      intro heq
      exact herc (String.toList_inj.1 heq)
    have hdecode : decodeTagged (tag.toList ++ '-' :: body) = decodeStream tag body := by
      rw [decodeTagged_append htag, if_neg hother, String.ofList_toList]
    rw [decodeStream_isObject tag name descr hbody] at hdecode
    exact decode_tagged hbody tag.toList hdecode

/-- Hints with offsets as far apart as they can be. -/
def sampleHints : Hints where
  offsets := some (-9223372036854775808, 9223372036854775807)
  title := some "the \"post\""
  count := some 3
  rule := some "Sync"
  count_bounds := by
    intro n hn
    cases hn
    decide

/-- The hints as they are written, the last one first. -/
def sampleExtra : List Char :=
  Json.writeObject sampleHints.members.reverse

/-- A finding with these hints, its members in reverse. -/
def sampleLine : String :=
  "\x7b\"extra\":\x7b\"whileRule\":\"Sync\",\"quantifiersRemoved\":3,\"title\":" ++
    "\"the \\\"post\\\"\",\"offsetRight\":9223372036854775807,\"offsetLeft\":" ++
    "-9223372036854775808\x7d,\"message\":\"α\\n\\u0001\",\"level\":\"ERR\"\x7d"

/-- A finding, an error with a code, and a message without a name. -/
theorem decode_of_samples :
    decode sampleLine =
      .ok (.diagnostic ⟨.error, "α\n\x01", none,
        [.positioned (-9223372036854775808) 9223372036854775807 (some "the \"post\""),
          .quantifiers 3, .rule "Sync"], none⟩) ∧
    decode "JSON-ERC-\x7b\"name\":\"parse\",\"code\":-7,\"pos\":0,\"descr\":\"a-b\"\x7d" =
      .ok (.diagnostic ⟨.error, "a-b", none, [.word 0, .title "parse (code -7)"], none⟩) ∧
    decode "JSON-WRN-\x7b\"descr\":\"slow\"\x7d" = .ok (.stream .warning "WRN" "slow") := by
  rcases decode_isObject with ⟨hfinding, hcode, hstream⟩
  refine ⟨?_, ?_, ?_⟩
  · have hextra : ∀ h text, some (sampleHints, sampleExtra) = some (h, text) →
        IsObject (Hints.members h) text := by
      intro h text heq
      cases heq
      exact ⟨_, List.reverse_perm _, rfl⟩
    have hdecode := hfinding .error "α\n\x01" none (some (sampleHints, sampleExtra)) _ hextra
      ⟨_, List.reverse_perm _, rfl⟩
    have hattributes : sampleHints.attributes =
        [.positioned (-9223372036854775808) 9223372036854775807 (some "the \"post\""),
          .quantifiers 3, .rule "Sync"] := by decide +kernel
    have hline : sampleLine =
      String.ofList (Json.writeObject
        (findingMembers .error "α\n\x01" none (some sampleExtra)).reverse) := by
      decide +kernel
    simp only [Option.map_some, Option.getD_some, hattributes, ← hline] at hdecode
    exact hdecode
  · have hdecode := hcode "parse" (-7) 0 "a-b" _ ⟨_, List.Perm.refl _, rfl⟩
    have hreport : toString (-7 : Int64).toInt = "-7" ∧ (0 : Int64).toInt = 0 := by decide +kernel
    rw [hreport.1, hreport.2] at hdecode
    exact hdecode
  · have hdecode := hstream "WRN" none "slow" _ (by decide) (by decide)
      ⟨_, List.Perm.refl _, rfl⟩
    exact hdecode

end Wire
end VerifierSession
