import Mathlib.Data.List.Induction
import Mathlib.Data.List.Nodup
import VerifierSession.Proofs.Fields
import VerifierSession.Proofs.Quoting
import VerifierSession.Proofs.Starting

/-!
# What a configuration file means

A file sets some of the fields of a configuration, in any order and among anything else.  Its
meaning is these fields over the defaults; and a field of the wrong kind leaves nothing but the
defaults.

* `Piece`, `File`: a file, piece by piece, with the fields that are set and whatever else it holds;
* `build_written`: the pieces that set fields add these fields to the document, one by one;
* `exists_file`: any fields and tables in any order are a file;
* `load_file`: the configuration of a file.
-/

namespace VerifierSession
namespace Config

open Toml (Node Members Statement Reads)

/-! ## Files -/

/-- The ways to write a field: the plain one, and any other that is read as the field. -/
inductive Writes (f : Field) : Node → List Char → Prop where
  | text {s : String} {body : List Char} (hbody : Toml.Quotation.Spells body s.toList) :
      Writes f (.text s) (Toml.line f.name.toList (Toml.Quotation.quoted body))
  | boolean (b : Bool) :
      Writes f (.boolean b) (Toml.line f.name.toList (if b then "true" else "false").toList)
  | otherwise {node : Node} {text : List Char} (htext : Reads text [.pair ([], f.name, node)]) :
      Writes f node text

theorem reads_plain (f : Field) {c : Char} {value : List Char} {node : Node}
    (hc : c ∉ ['[', '\x7b', ' ', '\t']) (hvalue : Toml.scalar (c :: value) = some (node, [])) :
    Reads (Toml.line f.name.toList (c :: value)) [.pair ([], f.name, node)] := by
  have hreads := Toml.reads_line f.isKeyChar_of_mem_name f.name_ne_nil hc hvalue
  rwa [String.ofList_toList] at hreads

/-- However a field is written, it is read. -/
theorem Writes.reads {f : Field} {node : Node} {text : List Char} (h : Writes f node text) :
    Reads text [.pair ([], f.name, node)] := by
  cases h with
  | text hbody =>
      have hvalue := Toml.scalar_quoted hbody
      rw [String.ofList_toList] at hvalue
      exact reads_plain f (by decide) hvalue
  | boolean b =>
      cases b with
      | true => exact reads_plain f (by decide) rfl
      | false => exact reads_plain f (by decide) rfl
  | otherwise htext => exact htext

/-- A piece of a file: a field, or anything else, such as headers, keys of no field and comments. -/
inductive Piece where
  | field (f : Field) (node : Node) (text : List Char)
  | other (text : List Char) (ss : List Statement)

namespace Piece

def text : Piece → List Char
  | field _ _ text => text
  | other text _ => text

def statements : Piece → List Statement
  | field f node _ => [.pair ([], f.name, node)]
  | other _ ss => ss

def field? : Piece → Option (Field × Node)
  | field f node _ => some (f, node)
  | other _ _ => none

/-- The text of a piece has the statements that it should have. -/
def Sound : Piece → Prop
  | field f node text => Writes f node text
  | other text ss => Reads text ss

theorem Sound.reads {p : Piece} (h : p.Sound) : Reads p.text p.statements := by
  cases p with
  | field f node text => exact Writes.reads h
  | other text ss => exact h

end Piece

/-- The text of pieces, each on lines of its own. -/
def textOf (pieces : List Piece) : List Char :=
  ['\n'].intercalate (pieces.map Piece.text)

def written (pieces : List Piece) : List (Field × Node) :=
  pieces.filterMap Piece.field?

@[simp] theorem written_nil : written [] = [] := rfl

theorem written_append (pieces pieces' : List Piece) :
    written (pieces ++ pieces') = written pieces ++ written pieces' :=
  List.filterMap_append ..

@[simp] theorem written_field (f : Field) (node : Node) (text : List Char) (pieces : List Piece) :
    written (.field f node text :: pieces) = (f, node) :: written pieces := rfl

@[simp] theorem written_other (text : List Char) (ss : List Statement) (pieces : List Piece) :
    written (.other text ss :: pieces) = written pieces := rfl

def others (pieces : List Piece) : List Piece :=
  pieces.filter fun p => p.field?.isNone

theorem others_append (pieces pieces' : List Piece) :
    others (pieces ++ pieces') = others pieces ++ others pieces' :=
  List.filter_append ..

@[simp] theorem others_field (f : Field) (node : Node) (text : List Char) (pieces : List Piece) :
    others (.field f node text :: pieces) = others pieces := rfl

@[simp] theorem others_other (text : List Char) (ss : List Statement) (pieces : List Piece) :
    others (.other text ss :: pieces) = .other text ss :: others pieces := rfl

/-- The header below which the next statement stands, if it is a plain one. -/
def standing (current : Option String) : Statement → Option String
  | .pair _ => current
  | .table ⟨[], t⟩ => some t
  | _ => none

/-- Every field stands below the header of its table. -/
def Placed (current : Option String) : List Piece → Prop
  | [] => True
  | .field f _ _ :: pieces => current = some f.table.name ∧ Placed current pieces
  | .other _ ss :: pieces => Placed (ss.foldl standing current) pieces

/-- The values of the fields: those that pieces set, and those that the rest gives them. -/
def valueOf (rest : Field → Option Node) (pieces : List Piece) (f : Field) : Option Node :=
  ((written pieces).lookup f).or (rest f)

/--
A configuration file.  The pieces that set fields stand below the headers of their tables.  What is
left without them is a document too, and the fields that it has are others.
-/
structure File where
  marked : Bool
  pieces : List Piece
  root : Members
  rest : Field → Option Node
  sound : ∀ p ∈ pieces, p.Sound
  placed : Placed none pieces
  once : ((written pieces).map Prod.fst).Nodup
  fresh : ∀ f ∈ (written pieces).map Prod.fst, rest f = none
  valid : Toml.readDocument (textOf (others pieces)) = some root
  shows : Shows root rest

namespace File

/-- The text of a file; there may be a byte order mark before it. -/
def text (file : File) : String :=
  String.ofList (if file.marked then '\uFEFF' :: textOf file.pieces else textOf file.pieces)

/-- The value of a field, if a file gives it one. -/
def node? (file : File) (f : Field) : Option Node :=
  valueOf file.rest file.pieces f

end File

/-! ## Reading files -/

theorem reads_textOf {pieces : List Piece} (h : ∀ p ∈ pieces, p.Sound) :
    Reads (textOf pieces) (pieces.flatMap Piece.statements) := by
  induction pieces with
  | nil => exact Reads.nil
  | cons p pieces ih =>
      have hp := (h p List.mem_cons_self).reads
      have hrest := ih fun q hq => h q (List.mem_cons_of_mem _ hq)
      cases pieces with
      | nil => simpa [textOf] using hp
      | cons q pieces =>
          have hboth := hp.append hrest
          simpa [textOf, List.intercalate_cons_cons] using hboth

theorem exists_header {ss : List Statement} {t : String} (h : ss.foldl standing none = some t) :
    ∃ (before : List Statement) (pairs : List Toml.Pair),
      ss = before ++ .table ⟨[], t⟩ :: pairs.map .pair := by
  induction ss using List.reverseRecOn with
  | nil => cases h
  | append_singleton ss s ih =>
      rw [List.foldl_append, List.foldl_cons, List.foldl_nil] at h
      cases s with
      | pair p =>
          obtain ⟨before, pairs, rfl⟩ := ih h
          exact ⟨before, pairs ++ [p], by simp⟩
      | table key =>
          obtain ⟨path, last⟩ := key
          cases path with
          | nil =>
              cases h
              exact ⟨ss, [], rfl⟩
          | cons k path => cases h
      | element key => cases h

/-- A field that is added below the header of its table says that much more, and nothing else. -/
theorem Shows.exists_build {ss rest : List Statement} {root : Members}
    {value : Field → Option Node} {f : Field} (h : Shows root value)
    (hroot : Toml.build (ss ++ rest) = some root)
    (hheader : ss.foldl standing none = some f.table.name) (hf : value f = none) (node : Node) :
    ∃ root', Toml.build (ss ++ .pair ([], f.name, node) :: rest) = some root' ∧
      ∀ value', value' f = some node → (∀ g, g ≠ f → value' g = value g) → Shows root' value' := by
  obtain ⟨before, pairs, rfl⟩ := exists_header hheader
  rw [List.append_assoc, List.cons_append] at hroot
  obtain ⟨root', hroot', hgrown⟩ := Toml.build_field hroot (h.lacks hf)
  refine ⟨root', ?_, fun value' hnode hothers => h.grown hgrown hnode hothers⟩
  rw [List.append_assoc, List.cons_append]
  exact hroot'

theorem build_written {before after : List Piece} {root : Members} {rest : Field → Option Node}
    (hroot : Toml.build ((before ++ others after).flatMap Piece.statements) = some root)
    (hshows : Shows root (valueOf rest before))
    (hplaced : Placed ((before.flatMap Piece.statements).foldl standing none) after)
    (honce : ((written (before ++ after)).map Prod.fst).Nodup)
    (hfresh : ∀ f ∈ (written after).map Prod.fst, rest f = none) :
    ∃ root', Toml.build ((before ++ after).flatMap Piece.statements) = some root' ∧
      Shows root' (valueOf rest (before ++ after)) := by
  induction after generalizing before root with
  | nil => exact ⟨root, by simpa [others] using hroot, by simpa using hshows⟩
  | cons p after ih =>
      have hassoc : before ++ p :: after = (before ++ [p]) ++ after := by simp
      cases p with
      | other text ss =>
          rw [hassoc] at honce ⊢
          have hroot' : Toml.build (((before ++ [Piece.other text ss]) ++ others after).flatMap
              Piece.statements) = some root := by
            simpa [others, Piece.field?] using hroot
          have hvalue : valueOf rest (before ++ [.other text ss]) = valueOf rest before := by
            funext f
            simp [valueOf, written_append]
          refine ih hroot' (hvalue ▸ hshows) ?_ honce hfresh
          simpa [Placed, Piece.statements, List.foldl_append] using hplaced
      | field f node text =>
          obtain ⟨hheader, hplaced⟩ := hplaced
          rw [written_field, List.map_cons, List.forall_mem_cons] at hfresh
          have hnew : (written before).lookup f = none := by
            simp only [written_append, written_field, List.map_append, List.map_cons,
              List.nodup_append] at honce
            rw [List.lookup_eq_none_iff]
            intro q hq
            have hne := honce.2.2 q.1 (List.mem_map_of_mem hq) f List.mem_cons_self
            simpa using hne.symm
          have hunset : valueOf rest before f = none := by simp [valueOf, hnew, hfresh.1]
          have hbefore : Toml.build (before.flatMap Piece.statements ++
              (others after).flatMap Piece.statements) = some root := by
            simpa [others, Piece.field?] using hroot
          obtain ⟨root', hroot', hadded⟩ := hshows.exists_build hbefore hheader hunset node
          rw [hassoc] at honce ⊢
          have hmore : Toml.build (((before ++ [Piece.field f node text]) ++ others after).flatMap
              Piece.statements) = some root' := by
            simpa [Piece.statements] using hroot'
          refine ih hmore (hadded _ ?_ ?_) ?_ honce hfresh.2
          · simp [valueOf, written_append, List.lookup_append, hnew]
          · intro g hg
            have hgf : (g == f) = false := beq_eq_false_iff_ne.2 hg
            simp [valueOf, written_append, List.lookup_append, List.lookup_cons, hgf]
          · simpa [Piece.statements, List.foldl_append, standing] using hplaced

namespace File

/-- A file is a document in which the fields have the values that the file sets them to. -/
theorem exists_readDocument (file : File) :
    ∃ root, Toml.readDocument file.text.toList = some root ∧ Shows root file.node? := by
  have hothers : Reads (textOf (others file.pieces))
      ((others file.pieces).flatMap Piece.statements) :=
    reads_textOf fun p hp => file.sound p (List.mem_filter.1 hp).1
  have hroot : Toml.build ((others file.pieces).flatMap Piece.statements) = some file.root := by
    have hvalid := file.valid
    rw [Toml.readDocument, hothers.statements_eq.1] at hvalid
    exact hvalid
  have hstart : Toml.build (([] ++ others file.pieces).flatMap Piece.statements) =
      some file.root := hroot
  have hrest : valueOf file.rest [] = file.rest := by
    funext f
    simp [valueOf]
  obtain ⟨root, hbuild, hshows⟩ :=
    build_written hstart (hrest ▸ file.shows) file.placed file.once file.fresh
  refine ⟨root, ?_, hshows⟩
  have hreads := (reads_textOf file.sound).statements_eq
  rw [Toml.readDocument, text, String.toList_ofList]
  split
  · rw [hreads.2]
    exact hbuild
  · rw [hreads.1]
    exact hbuild

theorem ofDocument?_text (file : File) :
    ofDocument? file.text.toList = ofFields? file.node? := by
  obtain ⟨root, hroot, hshows⟩ := file.exists_readDocument
  rw [ofDocument?, hroot, Option.bind_some, ofMembers?_eq hshows]

end File

/-! ## Plain files -/

def Table.header (t : Table) : Piece :=
  .other ('[' :: (t.name.toList ++ [']'])) [.table ⟨[], t.name⟩]

/-- Tables one after the other, and in each its fields one after the other. -/
def arranged (tables : List Table) (fields : List Field) (piece : Field → Piece) : List Piece :=
  tables.flatMap fun t => t.header :: (fields.filter fun f => f.table = t).map piece

section Arranged

variable {tables : List Table} {fields : List Field} {node : Field → Node}
  {text : Field → List Char}

theorem written_arranged (tables : List Table) (fields : List Field) :
    written (arranged tables fields fun f => .field f (node f) (text f)) =
      (tables.flatMap fun t => fields.filter fun f => f.table = t).map fun f => (f, node f) := by
  have hpieces : ∀ fields : List Field,
      written (fields.map fun f => .field f (node f) (text f)) =
        fields.map fun f => (f, node f) := by
    intro fields
    induction fields with
    | nil => rfl
    | cons f fields ih => simp [ih]
  induction tables with
  | nil => rfl
  | cons t tables ih =>
      rw [arranged, List.flatMap_cons, ← arranged, written_append, ih, Table.header, written_other,
        hpieces, List.flatMap_cons, List.map_append]

theorem others_arranged (tables : List Table) (fields : List Field) :
    others (arranged tables fields fun f => .field f (node f) (text f)) =
      tables.map Table.header := by
  have hpieces : ∀ fields : List Field,
      others (fields.map fun f => .field f (node f) (text f)) = [] := by
    intro fields
    induction fields with
    | nil => rfl
    | cons f fields ih => simp [ih]
  induction tables with
  | nil => rfl
  | cons t tables ih =>
      rw [arranged, List.flatMap_cons, ← arranged, others_append, ih, Table.header, others_other,
        hpieces]
      rfl

theorem placed_arranged (current : Option String) :
    Placed current (arranged tables fields fun f => .field f (node f) (text f)) := by
  have hpieces : ∀ (t : Table) (fields : List Field) (pieces : List Piece),
      (∀ f ∈ fields, f.table = t) → Placed (some t.name) pieces →
        Placed (some t.name) (fields.map (fun f => .field f (node f) (text f)) ++ pieces) := by
    intro t fields pieces hfields hplaced
    induction fields with
    | nil => exact hplaced
    | cons f fields ih =>
        obtain ⟨hf, hfields⟩ := List.forall_mem_cons.1 hfields
        exact ⟨by rw [hf], ih hfields⟩
  induction tables generalizing current with
  | nil => trivial
  | cons t tables ih =>
      rw [arranged, List.flatMap_cons, ← arranged]
      refine hpieces t _ _ ?_ (ih _)
      intro f hf
      simpa using (List.mem_filter.1 hf).2

theorem nodup_fields (htables : tables.Nodup) (hfields : fields.Nodup) :
    (tables.flatMap fun t => fields.filter fun f => f.table = t).Nodup := by
  refine List.nodup_flatMap.2 ⟨fun t _ => hfields.filter _, List.Pairwise.imp ?_ htables⟩
  intro t u htu f ht hu
  simp only [List.mem_filter, decide_eq_true_eq] at ht hu
  exact htu (ht.2.symm.trans hu.2)

/-- Headers of different tables open them, and nothing stands in them. -/
theorem readDocument_headers (htables : tables.Nodup) :
    Toml.readDocument (textOf (tables.map Table.header)) =
      some (tables.map fun t => (t.name, .table .header [])) := by
  rcases tables with _ | ⟨t, _ | ⟨u, _ | ⟨v, tables⟩⟩⟩
  · rfl
  · cases t <;> rfl
  · cases t <;> cases u <;> first | rfl | simp at htables
  · cases t <;> cases u <;> cases v <;> simp at htables

theorem shows_headers (tables : List Table) :
    Shows (tables.map fun t => (t.name, .table .header [])) fun _ => none := by
  intro t
  induction tables with
  | nil => exact .inl ⟨rfl, fun _ _ => rfl⟩
  | cons u tables ih =>
      by_cases hname : u.name = t.name
      · exact .inr ⟨.header, [], by simp [Members.find?, hname], fun _ _ => rfl⟩
      · simpa [Members.find?, hname] using ih

theorem sound_arranged (tables : List Table)
    (hwrites : ∀ f ∈ fields, Writes f (node f) (text f)) :
    ∀ p ∈ arranged tables fields fun f => .field f (node f) (text f), p.Sound := by
  intro p hp
  obtain ⟨t, -, hpiece⟩ := List.mem_flatMap.1 hp
  rcases List.mem_cons.1 hpiece with rfl | hpiece
  · cases t
    all_goals
      refine Reads.singleton rfl rfl rfl
  · obtain ⟨f, hf, rfl⟩ := List.mem_map.1 hpiece
    exact hwrites f (List.mem_filter.1 hf).1

theorem lookup_map {fields : List Field} {f : Field} :
    (fields.map fun f => (f, node f)).lookup f = if f ∈ fields then some (node f) else none := by
  induction fields with
  | nil => rfl
  | cons g fields ih =>
      by_cases hfg : f = g
      · simp [hfg]
      · have hne : (f == g) = false := beq_eq_false_iff_ne.2 hfg
        simp [List.lookup_cons, hne, ih, hfg]

/-- Any of the fields, in any order, are a file with the tables in any order. -/
theorem exists_file (htables : tables.Nodup) (hfields : fields.Nodup)
    (hin : ∀ f ∈ fields, f.table ∈ tables) (hwrites : ∀ f ∈ fields, Writes f (node f) (text f)) :
    ∃ file : File, file.pieces = arranged tables fields (fun f => .field f (node f) (text f)) ∧
      ∀ f, file.node? f = if f ∈ fields then some (node f) else none := by
  have hkeys : (written (arranged tables fields fun f => .field f (node f) (text f))).map Prod.fst =
      tables.flatMap fun t => fields.filter fun f => f.table = t := by
    rw [written_arranged, List.map_map]
    exact List.map_id _
  refine ⟨{
    marked := false
    pieces := arranged tables fields fun f => .field f (node f) (text f)
    root := tables.map fun t => (t.name, .table .header [])
    rest := fun _ => none
    sound := sound_arranged tables hwrites
    placed := placed_arranged none
    once := by
      rw [hkeys]
      exact nodup_fields htables hfields
    fresh := fun _ _ => rfl
    valid := by
      rw [others_arranged]
      exact readDocument_headers htables
    shows := shows_headers tables }, rfl, ?_⟩
  intro f
  have hmem : (f ∈ tables.flatMap fun t => fields.filter fun f => f.table = t) ↔ f ∈ fields := by
    simp only [List.mem_flatMap, List.mem_filter, decide_eq_true_eq]
    constructor
    · rintro ⟨t, -, hf, -⟩
      exact hf
    · intro hf
      exact ⟨f.table, hin f hf, hf, rfl⟩
  simp only [File.node?, valueOf, written_arranged, lookup_map, hmem, Option.or_none]

end Arranged

/-! ## The configuration of a file -/

/--
A file means its fields over the defaults, whatever else stands in it; a path counts if it is not
empty.  With a field of the wrong kind it is no configuration, and the defaults stand for it.
-/
theorem load_file {d : Directory} {path : Path} {file : File}
    (hfile : d.Holds path file.text) :
    (∀ s : Settings, file.node? = s.node? →
      Config.load d path = .ok s.config ∧ (ConfigSource.file path).snapshot d = s.config ∧
      (∀ r t, s.config.configured r = some ⟨t⟩ ↔ s.path (.requisite r) = some t ∧ t ≠ "") ∧
      ∀ t, s.config.customVerifier = some ⟨t⟩ ↔ s.path .verifier = some t ∧ t ≠ "") ∧
    ∀ f node, file.node? f = some node → ¬ f.Takes node →
      Config.load d path = .error (.malformed path) ∧
      (ConfigSource.file path).snapshot d = {} := by
  have htext := Directory.readText_eq_ok_iff.2 hfile
  refine ⟨?_, ?_⟩
  · intro s hs
    have hload : Config.load d path = .ok s.config := by
      simp only [Config.load, htext, file.ofDocument?_text, hs, ofFields?_node?]
    refine ⟨hload, by simp only [ConfigSource.snapshot, hload], ?_, ?_⟩
    · intro r t
      cases r <;> simp [configured, nonEmpty?_eq_some, Settings.config]
    · intro t
      simp [customVerifier, nonEmpty?_eq_some, Settings.config]
  · intro f node hnode hkind
    have hload : Config.load d path = .error (.malformed path) := by
      simp only [Config.load, htext, file.ofDocument?_text, ofFields?_eq_none hnode hkind]
    exact ⟨hload, by simp only [ConfigSource.snapshot, hload]⟩

/-- A directory with nothing but a configuration file. -/
def holding (file : File) : Directory :=
  ⟨[(["config.toml"], .file (Text.Utf8.bytes file.text))]⟩

/-- Two paths and an option, which may be given another value, among other keys and tables. -/
def mixed {node : Node} {text : List Char} (hinline : Writes (.option .inlined) node text) :
    File where
  marked := true
  pieces :=
    [.other "# colours\ncolour = \"red\"\n[options] # flags".toList
        [.pair ([], "colour", .text "red"), .table ⟨[], "options"⟩],
      .field (.option .inlined) node text,
      .other "depth = 3\n[extra.requisites]\nz3_path = 1\n[requisites]".toList
        [.pair ([], "depth", .number), .table ⟨["extra"], "requisites"⟩,
          .pair ([], "z3_path", .number), .table ⟨[], "requisites"⟩],
      .field (.path (.requisite .java)) (.text "é\"")
        (Toml.line "java_path".toList (Toml.Quotation.quoted "\\u00e9\\\"".toList)),
      .field (.path (.requisite .z3)) (.text "")
        (Toml.line "z3_path".toList (Toml.Quotation.quoted []))]
  root :=
    [("colour", .text "red"), ("options", .table .header [("depth", .number)]),
      ("extra", .table .passed [("requisites", .table .header [("z3_path", .number)])]),
      ("requisites", .table .header [])]
  rest := fun _ => none
  sound := by
    have hflags : Reads "# colours\ncolour = \"red\"\n[options] # flags".toList
        [.pair ([], "colour", .text "red"), .table ⟨[], "options"⟩] := by
      with_unfolding_all rfl
    have hextra : Reads "depth = 3\n[extra.requisites]\nz3_path = 1\n[requisites]".toList
        [.pair ([], "depth", .number), .table ⟨["extra"], "requisites"⟩,
          .pair ([], "z3_path", .number), .table ⟨[], "requisites"⟩] := by
      with_unfolding_all rfl
    have haccent : Toml.Quotation.SpellsChar ['\\', 'u', '0', '0', 'e', '9'] 'é' :=
      .digits (by decide) rfl rfl
    have hquote : Toml.Quotation.SpellsChar ['\\', '"'] '"' := .letter rfl
    have hbody : Toml.Quotation.Spells "\\u00e9\\\"".toList "é\"".toList :=
      .cons haccent (.cons hquote .nil)
    have hempty : Toml.Quotation.Spells [] "".toList := .nil
    simp only [List.forall_mem_cons, List.not_mem_nil, false_implies, implies_true, and_true]
    exact ⟨hflags, hinline, hextra, Writes.text hbody, Writes.text hempty⟩
  placed := ⟨rfl, rfl, rfl, trivial⟩
  once := by
    change ([.option .inlined, .path (.requisite .java), .path (.requisite .z3)] : List Field).Nodup
    decide
  fresh := fun _ _ => rfl
  valid := by with_unfolding_all rfl
  shows := by
    intro t
    cases t with
    | requisites => exact .inr ⟨.header, [], rfl, fun _ _ => rfl⟩
    | options =>
        refine .inr ⟨.header, [("depth", .number)], rfl, fun f _ => ?_⟩
        cases f with
        | path p => rcases p with (_ | _ | _) | _ <;> rfl
        | option o => cases o <;> rfl

theorem writes_number : Writes (.option .inlined) .number "inline = 1".toList :=
  .otherwise (by with_unfolding_all rfl)

/-- The fields of the file are read over the defaults, and not at all if one is a number. -/
theorem load_mixed :
    Config.load (holding (mixed (.boolean true))) ⟨"config.toml"⟩ = .ok
      { requisites := { java := some ⟨"é\""⟩, z3 := some ⟨""⟩ }
        options := { inlined := true } } ∧
    Config.load (holding (mixed writes_number)) ⟨"config.toml"⟩ =
      .error (.malformed ⟨"config.toml"⟩) := by
  let s : Settings :=
    { path := fun
        | .requisite .java => some "é\""
        | .requisite .z3 => some ""
        | _ => none
      option := fun
        | .inlined => some true
        | _ => none }
  have hs : (mixed (.boolean true)).node? = s.node? := by
    funext f
    cases f with
    | path p => rcases p with (_ | _ | _) | _ <;> rfl
    | option o => cases o <;> rfl
  have hheld : ∀ file : File, (holding file).Holds ⟨"config.toml"⟩ file.text :=
    fun _ => .inl rfl
  exact ⟨((load_file (hheld _)).1 s hs).1,
    ((load_file (hheld _)).2 (.option .inlined) .number rfl id).1⟩

end Config
end VerifierSession
