import VerifierSession.ConfigSource
import VerifierSession.Proofs.Tables

/-!
# The fields of a configuration

A configuration has a table of paths and a table of options.  What a document says about it is what
it says about their fields: each is as written, or at its default, and one of the wrong kind spoils
the whole.

* `Field`: the fields, with the tables they belong to;
* `Settings`: values for some of them, with `Settings.config` for the others at their defaults;
* `Shows`: the values that a document gives to the fields, with `ofMembers?_eq` for what they mean;
* `Shows.grown`: one more field in a document.
-/

namespace VerifierSession
namespace Config

open Toml (Node Members rowOfMembers)

/-! ## Fields -/

inductive Table where
  | requisites
  | options
  deriving DecidableEq

def Table.name : Table → String
  | requisites => "requisites"
  | options => "options"

theorem Table.eq_of_name_eq {t u : Table} (h : t.name = u.name) : t = u := by
  revert h
  cases t <;> cases u <;> decide

inductive PathField where
  | requisite (r : Requisite)
  | verifier
  deriving DecidableEq

/-- The paths, in the order of the fields. -/
def PathField.all : List PathField :=
  [requisite .java, requisite .z3, requisite .boogie, verifier]

def PathField.name : PathField → String
  | requisite .java => "java_path"
  | requisite .z3 => "z3_path"
  | requisite .boogie => "boogie_path"
  | verifier => "hypra_path"

inductive OptionField where
  | forallEncoding
  | existsEncoding
  | noFrame
  | existsFrame
  | auto
  | inlined
  | saveEncoding
  deriving DecidableEq

/-- The options, in the order of the fields. -/
def OptionField.all : List OptionField :=
  [forallEncoding, existsEncoding, noFrame, existsFrame, auto, inlined, saveEncoding]

def OptionField.name : OptionField → String
  | forallEncoding => "forall_encoding"
  | existsEncoding => "exists_encoding"
  | noFrame => "no_frame"
  | existsFrame => "exists_frame"
  | auto => "auto"
  | inlined => "inline"
  | saveEncoding => "save_viper_encoding"

inductive Field where
  | path (p : PathField)
  | option (o : OptionField)
  deriving DecidableEq

namespace Field

def table : Field → Table
  | path _ => .requisites
  | option _ => .options

def name : Field → String
  | path p => p.name
  | option o => o.name

/-- Whether a value is of the kind that a field has. -/
def Takes : Field → Node → Prop
  | path _, .text _ => True
  | option _, .boolean _ => True
  | _, _ => False

theorem eq_of_name_eq {f g : Field} (h : f.name = g.name) : f = g := by
  revert h
  cases f with
  | path p =>
      cases g with
      | path q => rcases p with (_ | _ | _) | _ <;> rcases q with (_ | _ | _) | _ <;> decide
      | option o => rcases p with (_ | _ | _) | _ <;> cases o <;> decide
  | option o =>
      cases g with
      | path q => rcases q with (_ | _ | _) | _ <;> cases o <;> decide
      | option o' => cases o <;> cases o' <;> decide

theorem isKeyChar_of_mem_name (f : Field) : ∀ c ∈ f.name.toList, Toml.isKeyChar c = true := by
  refine List.all_eq_true.1 ?_
  cases f with
  | path p => rcases p with (_ | _ | _) | _ <;> rfl
  | option o => cases o <;> rfl

theorem name_ne_nil (f : Field) : f.name.toList ≠ [] := by
  cases f with
  | path p => rcases p with (_ | _ | _) | _ <;> decide
  | option o => cases o <;> decide

end Field

/-- Values for some of the fields. -/
structure Settings where
  path : PathField → Option String
  option : OptionField → Option Bool

namespace Settings

/-- The value of a field, as a document gives it. -/
def node? (s : Settings) : Field → Option Node
  | .path p => (s.path p).map .text
  | .option o => (s.option o).map .boolean

/-- The configuration with these values, and the defaults for the other fields. -/
def config (s : Settings) : Config where
  requisites :=
    { java := (s.path (.requisite .java)).map Path.mk
      z3 := (s.path (.requisite .z3)).map Path.mk
      boogie := (s.path (.requisite .boogie)).map Path.mk
      verifier := (s.path .verifier).map Path.mk }
  options :=
    { forallEncoding := (s.option .forallEncoding).getD false
      existsEncoding := (s.option .existsEncoding).getD false
      noFrame := (s.option .noFrame).getD false
      existsFrame := (s.option .existsFrame).getD false
      auto := (s.option .auto).getD true
      inlined := (s.option .inlined).getD false
      saveEncoding := (s.option .saveEncoding).getD false }

end Settings

/-! ## Reading the fields -/

/-- A document gives these values to the fields; a table of theirs that is there is a table. -/
def Shows (root : Members) (value : Field → Option Node) : Prop :=
  ∀ t : Table, (root.find? t.name = none ∧ ∀ f, f.table = t → value f = none) ∨
    ∃ origin below, root.find? t.name = some (.table origin below) ∧
      ∀ f, f.table = t → Members.find? below f.name = value f

/-- The configuration that the values of the fields make. -/
def ofFields? (value : Field → Option Node) : Option Config := do
  let requisites ← requisitesOf (PathField.all.map fun p => value (.path p))
  let options ← optionsOf (OptionField.all.map fun o => value (.option o))
  return ⟨requisites, options⟩

/-- A table that is missing is read like one that lacks all fields. -/
theorem part_eq {α ι : Type} {missing : α} {read : List (Option Node) → Option α}
    {fields : List ι} (name : ι → String) {value : ι → Option Node} {found : Option Node}
    (hmissing : read (fields.map fun _ => none) = some missing)
    (h : (found = none ∧ ∀ i, value i = none) ∨
      ∃ origin below, found = some (.table origin below) ∧
        ∀ i, Members.find? below (name i) = value i) :
    part missing (fields.map name) read found = read (fields.map value) := by
  rcases h with ⟨rfl, hnone⟩ | ⟨origin, below, rfl, hfind⟩
  · have hall : fields.map value = fields.map fun _ => none :=
      List.map_congr_left fun i _ => hnone i
    rw [hall, hmissing, part]
  · simp [part, Node.row, rowOfMembers, Function.comp_def, hfind]

theorem ofMembers?_eq {root : Members} {value : Field → Option Node} (h : Shows root value) :
    ofMembers? root = ofFields? value := by
  have hrequisites : part {} requisiteNames requisitesOf (root.find? "requisites") =
      requisitesOf (PathField.all.map fun p => value (.path p)) := by
    have hmissing : requisitesOf (PathField.all.map fun _ => none) = some {} := rfl
    refine part_eq PathField.name hmissing ?_
    rcases h .requisites with ⟨hnone, hvalue⟩ | ⟨origin, below, htable, hvalue⟩
    · exact .inl ⟨hnone, fun p => hvalue (.path p) rfl⟩
    · exact .inr ⟨origin, below, htable, fun p => hvalue (.path p) rfl⟩
  have hoptions : part {} optionNames optionsOf (root.find? "options") =
      optionsOf (OptionField.all.map fun o => value (.option o)) := by
    have hmissing : optionsOf (OptionField.all.map fun _ => none) = some {} := rfl
    refine part_eq OptionField.name hmissing ?_
    rcases h .options with ⟨hnone, hvalue⟩ | ⟨origin, below, htable, hvalue⟩
    · exact .inl ⟨hnone, fun o => hvalue (.option o) rfl⟩
    · exact .inr ⟨origin, below, htable, fun o => hvalue (.option o) rfl⟩
  simp only [ofMembers?, hrequisites, hoptions, ofFields?]

@[simp] theorem path?_text (set : Option String) :
    path? (set.map .text) = some (set.map Path.mk) := by
  cases set <;> rfl

@[simp] theorem flag_boolean (missing : Bool) (set : Option Bool) :
    Toml.flag missing (set.map .boolean) = some (set.getD missing) := by
  cases set <;> rfl

/-- Fields of the right kind are read as they are, the others as their defaults. -/
theorem ofFields?_node? (s : Settings) : ofFields? s.node? = some s.config := by
  simp [ofFields?, PathField.all, OptionField.all, requisitesOf, optionsOf, Settings.node?,
    Settings.config]

theorem ofFields?_eq_none {value : Field → Option Node} {f : Field} {node : Node}
    (hf : value f = some node) (hkind : ¬ f.Takes node) : ofFields? value = none := by
  cases f with
  | path p =>
      have hpath : path? (value (.path p)) = none := by
        rw [hf]
        cases node with
        | text s => exact absurd trivial hkind
        | _ => rfl
      rcases p with (_ | _ | _) | _ <;>
        simp [ofFields?, PathField.all, requisitesOf, hpath]
  | option o =>
      have hflag : ∀ missing, Toml.flag missing (value (.option o)) = none := by
        intro missing
        rw [hf]
        cases node with
        | boolean b => exact absurd trivial hkind
        | _ => rfl
      cases o <;> simp [ofFields?, OptionField.all, optionsOf, hflag]

/-! ## One more field -/

section Grown

variable {root root' : Members} {value value' : Field → Option Node} {f : Field} {node : Node}

theorem Shows.lacks (h : Shows root value) (hf : value f = none) :
    root.Lacks f.table.name f.name := by
  intro origin below hbelow
  rcases h f.table with ⟨hnone, -⟩ | ⟨origin', below', htable, hvalue⟩
  · rw [hnone] at hbelow
    cases hbelow
  · rw [htable] at hbelow
    cases hbelow
    rw [hvalue f rfl, hf]

/-- A field that is added has its value, and the others keep theirs. -/
theorem Shows.grown (h : Shows root value)
    (hgrown : root'.Grown f.table.name f.name node root) (hf : value' f = some node)
    (hothers : ∀ g, g ≠ f → value' g = value g) : Shows root' value' := by
  obtain ⟨origin, below, htable, hfield, rfl⟩ := hgrown
  intro t
  by_cases ht : t = f.table
  · subst ht
    refine .inr ⟨origin, below, htable, fun g hg => ?_⟩
    by_cases hgf : g = f
    · rw [hgf, hfield, hf]
    · rcases h f.table with ⟨hnone, -⟩ | ⟨origin', below', htable', hvalue⟩
      · rw [Members.find?_set_self] at hnone
        cases hnone
      · rw [Members.find?_set_self] at htable'
        cases htable'
        rw [hothers g hgf, ← hvalue g hg,
          Members.find?_hide_ne fun hname => hgf (Field.eq_of_name_eq hname)]
  · have hname : t.name ≠ f.table.name := fun hname => ht (Table.eq_of_name_eq hname)
    have hother := h t
    rw [Members.find?_set_ne hname] at hother
    rcases hother with ⟨hnone, hvalue⟩ | ⟨origin', below', htable', hvalue⟩
    · refine .inl ⟨hnone, fun g hg => ?_⟩
      rw [hothers g (by rintro rfl; exact ht hg.symm), hvalue g hg]
    · refine .inr ⟨origin', below', htable', fun g hg => ?_⟩
      rw [hothers g (by rintro rfl; exact ht hg.symm), hvalue g hg]

end Grown

end Config
end VerifierSession
