import Mathlib.Data.List.Induction
import Mathlib.Data.List.TakeWhile
import Mathlib.Tactic.SplitIfs
import VerifierSession.Directory
import VerifierSession.Invocation

/-!
# Names of saved encodings

Taking a path apart at its last component, and a file name at its last dot, and what becomes of
the parts when the extension is replaced.

* `Path.parent`, `Path.Same`: the directory of the last component, and paths with the same
  components;
* `Path.sibling`: a name in the place of the last component, which is all that replacing an
  extension comes to (`Path.withExtension_eq`);
* `Path.IsDotted`: the file names that are two dots and an extension;
* `encodingPath_beside_source`: where an encoding is saved.
-/

namespace VerifierSession
namespace Path

/-- The directory that the last component of a path stands in. -/
def parent (p : Path) : Path :=
  let before := (stripEnd p.split.1.reverse).reverse
  ⟨String.ofList (if before = [] ∧ p.isAbsolute = true then ['/'] else before)⟩

/--
Two paths have the same components.  Separators in a row do not count, and neither do dots, unless
the path begins with one.
-/
def Same (p q : Path) : Prop :=
  p.isAbsolute = q.isAbsolute ∧
    (p.components.head? = some "." ↔ q.components.head? = some ".") ∧ p.names = q.names

/-- A name in the place of the last component, and of what follows that. -/
def sibling (p : Path) (name : List Char) : Path :=
  ⟨String.ofList (p.split.1 ++ name)⟩

/-! ## The last component -/

theorem stripEnd_suffix (cs : List Char) : stripEnd cs <:+ cs := by
  fun_induction stripEnd cs with
  | case1 rest ih => exact ih.trans (List.suffix_cons _ _)
  | case2 rest ih => exact ih.trans (List.suffix_cons _ _)
  | case3 => exact List.suffix_rfl

/-- A last component that is more than a dot is not taken off. -/
theorem stripEnd_reverse_append {name : List Char} (hname : '/' ∉ name) (hne : name ≠ [])
    (hdot : name ≠ ['.']) (before : List Char) :
    stripEnd (name.reverse ++ before) = name.reverse ++ before := by
  cases hrev : name.reverse with
  | nil => exact absurd (List.reverse_eq_nil_iff.1 hrev) hne
  | cons c cs =>
      have hmem : ∀ d ∈ c :: cs, d ≠ '/' := by
        rintro d hd rfl
        exact hname (List.mem_reverse.1 (hrev ▸ hd))
      have hc : c ≠ '/' := hmem c List.mem_cons_self
      cases cs with
      | nil =>
          -- The only character is no dot, whatever stands before it.
          have hsingle : name = [c] := by simpa using congrArg List.reverse hrev
          have hc' : c ≠ '.' := fun heq => hdot (heq ▸ hsingle)
          simp [stripEnd, hc, hc']
      | cons d cs =>
          have hd : d ≠ '/' := hmem d (List.mem_cons_of_mem _ List.mem_cons_self)
          simp [stripEnd, hc, hd]

theorem slash_not_mem (p : Path) : '/' ∉ p.split.2 := by
  intro hmem
  have hpos := List.mem_takeWhile_imp (List.mem_reverse.1 hmem)
  simp at hpos

theorem head?_reverse_before (p : Path) : ∀ c ∈ p.split.1.reverse.head?, c = '/' := by
  intro c hc
  rw [split, List.reverse_reverse] at hc
  have hneg := List.head?_dropWhile_not (fun c : Char => c != '/') (stripEnd p.text.toList.reverse)
  rw [Option.mem_def.1 hc] at hneg
  simpa using hneg

theorem split_append (p : Path) :
    p.split.1 ++ p.split.2 = (stripEnd p.text.toList.reverse).reverse := by
  rw [split, ← List.reverse_append, List.takeWhile_append_dropWhile]

theorem exists_text_eq (p : Path) :
    ∃ behind, p.text.toList = p.split.1 ++ (p.split.2 ++ behind) := by
  obtain ⟨behind, hbehind⟩ := stripEnd_suffix p.text.toList.reverse
  have htext := congrArg List.reverse hbehind
  rw [List.reverse_append, List.reverse_reverse] at htext
  refine ⟨behind.reverse, ?_⟩
  rw [← List.append_assoc, split_append, htext]

theorem fileName?_eq_some {p : Path} {name : List Char} :
    p.fileName? = some name ↔
      p.split.2 = name ∧ name ≠ [] ∧ name ≠ ['.'] ∧ name ≠ ['.', '.'] := by
  unfold fileName?
  dsimp only
  split_ifs with hno
  · simp only [false_iff, not_and]
    rintro rfl hne hdot
    simpa [hne, hdot] using hno
  · rw [not_or, not_or] at hno
    constructor
    · intro h
      cases h
      exact ⟨rfl, hno⟩
    · rintro ⟨rfl, -⟩
      rfl

section Sibling

variable (p : Path) {name : List Char}

theorem split_sibling (hname : '/' ∉ name) (hne : name ≠ []) (hdot : name ≠ ['.']) :
    (p.sibling name).split = (p.split.1, name) := by
  have hall : ∀ c ∈ name.reverse, (c != '/') = true := by
    intro c hc
    have hslash : c ≠ '/' := fun heq => hname (heq ▸ List.mem_reverse.1 hc)
    simpa using hslash
  have hstrip : stripEnd (p.sibling name).text.toList.reverse =
      name.reverse ++ p.split.1.reverse := by
    rw [sibling, String.toList_ofList, List.reverse_append]
    exact stripEnd_reverse_append hname hne hdot _
  -- Behind the name comes a separator, if anything does.
  have hbefore := p.head?_reverse_before
  have hdrop : p.split.1.reverse.dropWhile (· != '/') = p.split.1.reverse := by
    cases h : p.split.1.reverse with
    | nil => rfl
    | cons c cs => simp [hbefore c (by simp [h])]
  have htake : p.split.1.reverse.takeWhile (· != '/') = [] := by
    cases h : p.split.1.reverse with
    | nil => rfl
    | cons c cs => simp [hbefore c (by simp [h])]
  rw [split, hstrip, List.dropWhile_append_of_pos hall, List.takeWhile_append_of_pos hall, hdrop,
    htake, List.append_nil, List.reverse_reverse, List.reverse_reverse]

theorem fileName?_sibling (hname : '/' ∉ name) (hne : name ≠ []) (hdot : name ≠ ['.'])
    (hdots : name ≠ ['.', '.']) : (p.sibling name).fileName? = some name :=
  fileName?_eq_some.2 ⟨by rw [p.split_sibling hname hne hdot], hne, hdot, hdots⟩

theorem sibling_sibling (hname : '/' ∉ name) (hne : name ≠ []) (hdot : name ≠ ['.'])
    (other : List Char) : (p.sibling name).sibling other = p.sibling other := by
  rw [sibling, p.split_sibling hname hne hdot]
  rfl

/-- Where a path starts is seen from what stands before its last component, if that has a name. -/
theorem isAbsolute_eq (h : p.split.2 ≠ []) : p.isAbsolute = (p.split.1.head? == some '/') := by
  obtain ⟨behind, htext⟩ := p.exists_text_eq
  unfold isAbsolute
  rw [htext]
  cases hbefore : p.split.1 with
  | cons c cs => rfl
  | nil =>
      have hslash := p.slash_not_mem
      cases hlast : p.split.2 with
      | nil => exact absurd hlast h
      | cons c cs =>
          have hc : c ≠ '/' := fun heq => hslash (by simp [hlast, heq])
          simpa using hc

theorem isAbsolute_sibling (h : p.split.2 ≠ []) (hname : '/' ∉ name) (hne : name ≠ [])
    (hdot : name ≠ ['.']) : (p.sibling name).isAbsolute = p.isAbsolute := by
  have hsplit := p.split_sibling hname hne hdot
  rw [isAbsolute_eq p h, isAbsolute_eq _ (by rwa [hsplit]), hsplit]

theorem parent_sibling (h : p.split.2 ≠ []) (hname : '/' ∉ name) (hne : name ≠ [])
    (hdot : name ≠ ['.']) : (p.sibling name).parent = p.parent := by
  rw [parent, parent, p.isAbsolute_sibling h hname hne hdot, p.split_sibling hname hne hdot]

end Sibling

/-! ## Components -/

def namesOf (cs : List Char) : List String :=
  (Path.mk (String.ofList cs)).names

theorem namesOf_append_slash (cs rest : List Char) :
    namesOf (cs ++ '/' :: rest) = namesOf cs ++ namesOf rest := by
  simp [namesOf, names, components, List.splitOn_append_cons_self]

theorem namesOf_eq_singleton {name : List Char} (hname : '/' ∉ name) (hne : name ≠ [])
    (hdot : name ≠ ['.']) : namesOf name = [String.ofList name] := by
  have hempty : String.ofList name ≠ "" := fun heq => hne (by simpa using congrArg String.toList heq)
  have hsingle : String.ofList name ≠ "." :=
    fun heq => hdot (by simpa using congrArg String.toList heq)
  simp [namesOf, names, components, List.splitOn_eq_singleton hname, hempty, hsingle]

/-- What is taken off the end of a text leads nowhere else. -/
theorem namesOf_stripEnd (cs : List Char) : namesOf (stripEnd cs).reverse = namesOf cs.reverse := by
  have hdot : namesOf ['.'] = [] := rfl
  have hnil : namesOf [] = [] := rfl
  fun_induction stripEnd cs with
  | case1 rest ih =>
      rw [ih, List.reverse_cons, namesOf_append_slash, hnil, List.append_nil]
  | case2 rest ih =>
      rw [ih]
      simp only [List.reverse_cons, List.append_assoc, List.singleton_append, namesOf_append_slash,
        hdot, hnil]
  | case3 => rfl

theorem names_eq (p : Path) : p.names = namesOf (p.split.1 ++ p.split.2) := by
  have htext : p.names = namesOf p.text.toList := by simp [namesOf]
  rw [htext, split_append, namesOf_stripEnd, List.reverse_reverse]

theorem getLast?_names {p : Path} (hne : p.split.2 ≠ []) (hdot : p.split.2 ≠ ['.']) :
    p.names.getLast? = some (String.ofList p.split.2) := by
  have hlast := namesOf_eq_singleton p.slash_not_mem hne hdot
  rw [names_eq]
  cases hbefore : p.split.1 using List.reverseRecOn with
  | nil => rw [List.nil_append, hlast, List.getLast?_singleton]
  | append_singleton before c =>
      have hc : c = '/' := p.head?_reverse_before c (by simp [hbefore])
      rw [hc, List.append_assoc, List.singleton_append, namesOf_append_slash, hlast,
        List.getLast?_concat]

theorem eq_of_same_sibling {p : Path} {name other : List Char} (h : p.fileName? = some name)
    (hother : '/' ∉ other) (hne : other ≠ []) (hdot : other ≠ ['.'])
    (hsame : Same (p.sibling other) p) : other = name := by
  obtain ⟨rfl, hne', hdot', -⟩ := fileName?_eq_some.1 h
  have hsplit := p.split_sibling hother hne hdot
  have hlast : (p.sibling other).names.getLast? = some (String.ofList other) := by
    rw [getLast?_names (by rwa [hsplit]) (by rwa [hsplit]), hsplit]
  rw [hsame.2.2, getLast?_names hne' hdot', Option.some_inj, String.ofList_inj] at hlast
  exact hlast.symm

/-! ## Stems and extensions -/

/-- A file name of two dots and an extension. -/
def IsDotted (name : List Char) : Prop :=
  ∃ extension, '.' ∉ extension ∧ name = '.' :: '.' :: extension

section Stems

variable {before extension name : List Char}

theorem cut_at_dot {after : List Char} (hafter : '.' ∉ after) (before : List Char) :
    (after ++ '.' :: before).dropWhile (· != '.') = '.' :: before ∧
      (after ++ '.' :: before).takeWhile (· != '.') = after := by
  have hall : ∀ c ∈ after, (c != '.') = true := by
    intro c hc
    have hdot : c ≠ '.' := fun heq => hafter (heq ▸ hc)
    simpa using hdot
  rw [List.dropWhile_append_of_pos hall, List.takeWhile_append_of_pos hall]
  simp

theorem stem_append (hextension : '.' ∉ extension) (hbefore : before ≠ []) :
    stem (before ++ '.' :: extension) = before := by
  have hcut := cut_at_dot (mt List.mem_reverse.1 hextension) before.reverse
  simp [stem, hcut.1, hbefore]

theorem extensionOf?_append (hextension : '.' ∉ extension) (hbefore : before ≠ []) :
    extensionOf? (before ++ '.' :: extension) = some extension := by
  have hcut := cut_at_dot (mt List.mem_reverse.1 hextension) before.reverse
  simp [extensionOf?, hcut.1, hcut.2, hbefore]

/-- A file name is its own stem, or it is its stem and its extension. -/
theorem stem_cases (name : List Char) :
    stem name = name ∨
      ∃ extension, '.' ∉ extension ∧ stem name ≠ [] ∧ name = stem name ++ '.' :: extension := by
  by_cases hdot : '.' ∈ name
  · obtain ⟨after, before, hsplit, hafter⟩ :=
      List.eq_append_cons_of_mem (List.mem_reverse.2 hdot)
    have hname : name = before.reverse ++ '.' :: after.reverse := by
      simpa using congrArg List.reverse hsplit
    by_cases hbefore : before.reverse = []
    · left
      simp [stem, hsplit, (cut_at_dot hafter before).1, hbefore]
    · right
      have hextension : '.' ∉ after.reverse := mt List.mem_reverse.1 hafter
      have hstem : stem name = before.reverse := by rw [hname, stem_append hextension hbefore]
      exact ⟨after.reverse, hextension, hstem ▸ hbefore, hstem ▸ hname⟩
  · left
    have hdrop : name.reverse.dropWhile (· != '.') = [] := by
      rw [List.dropWhile_eq_nil_iff]
      intro c hc
      have hne : c ≠ '.' := fun heq => hdot (heq ▸ List.mem_reverse.1 hc)
      simpa using hne
    simp [stem, hdrop]

theorem stem_ne_nil (hne : name ≠ []) : stem name ≠ [] := by
  rcases stem_cases name with hstem | ⟨extension, -, hstem, -⟩
  · rwa [hstem]
  · exact hstem

theorem mem_of_mem_stem {c : Char} (hc : c ∈ stem name) : c ∈ name := by
  rcases stem_cases name with hstem | ⟨extension, -, -, hname⟩
  · rwa [hstem] at hc
  · rw [hname]
    exact List.mem_append_left _ hc

theorem stem_eq_dot_iff (hdot : name ≠ ['.']) : stem name = ['.'] ↔ IsDotted name := by
  constructor
  · intro h
    rcases stem_cases name with hstem | ⟨extension, hextension, -, hname⟩
    · exact absurd (hstem ▸ h) hdot
    · rw [h] at hname
      exact ⟨extension, hextension, hname⟩
  · rintro ⟨extension, hextension, rfl⟩
    exact stem_append hextension (List.cons_ne_nil '.' [])

end Stems

/-! ## Another extension -/

theorem sibling_inj {p : Path} {name other : List Char} (h : p.sibling name = p.sibling other) :
    name = other := by
  simpa [sibling, String.ofList_inj] using h

/-- Two dots in the place of a file name name no file. -/
theorem fileName?_sibling_dots (p : Path) : (p.sibling ['.', '.']).fileName? = none := by
  have hsplit : (p.sibling ['.', '.']).split = (p.split.1, ['.', '.']) :=
    p.split_sibling (by decide) (by decide) (by decide)
  simp [fileName?, hsplit]

theorem endsInDots_iff {p : Path} {name : List Char} (h : p.fileName? = some name) :
    p.endsInDots name = true ↔ IsDotted name ∧ p.text.toList = p.split.1 ++ name := by
  obtain ⟨-, -, hdot, -⟩ := fileName?_eq_some.1 h
  rw [← stem_eq_dot_iff hdot, eq_comm (a := p.text.toList)]
  simp [endsInDots]

section WithExtension

variable {p : Path} {name : List Char} {extension : String}

theorem withExtension_of_none (h : p.fileName? = none) : p.withExtension extension = p := by
  rw [withExtension, h]

/-- Replacing an extension replaces the file name: by two dots, if only a dot comes before it. -/
theorem withExtension_eq (h : p.fileName? = some name) :
    p.withExtension extension =
      if p.endsInDots name = true then p.sibling ['.', '.']
      else p.sibling (stem name ++ '.' :: extension.toList) := by
  simp only [withExtension, h, sibling, List.append_assoc]

variable (hslash : '/' ∉ extension.toList) (hdot : '.' ∉ extension.toList)
  (hne : extension.toList ≠ [])

include hslash hne in
/-- A stem with an extension can stand in the place of a file name. -/
theorem fileName_of_stem (h : p.fileName? = some name) :
    '/' ∉ stem name ++ '.' :: extension.toList ∧
      stem name ++ '.' :: extension.toList ≠ [] ∧
      stem name ++ '.' :: extension.toList ≠ ['.'] ∧
      stem name ++ '.' :: extension.toList ≠ ['.', '.'] := by
  obtain ⟨rfl, hname, -, -⟩ := fileName?_eq_some.1 h
  have hstem : 0 < (stem p.split.2).length := List.length_pos_iff.2 (stem_ne_nil hname)
  have hextension : 0 < extension.toList.length := List.length_pos_iff.2 hne
  have hlength : ∀ cs : List Char, cs.length < 3 →
      stem p.split.2 ++ '.' :: extension.toList ≠ cs := by
    rintro cs hcs rfl
    rw [List.length_append, List.length_cons] at hcs
    omega
  refine ⟨?_, hlength _ (by decide), hlength _ (by decide), hlength _ (by decide)⟩
  rw [List.mem_append, List.mem_cons, not_or, not_or]
  exact ⟨fun hmem => p.slash_not_mem (mem_of_mem_stem hmem), by decide, hslash⟩

include hslash hdot hne in
/-- A path whose file name is not lost keeps its directory and its stem. -/
theorem parts_withExtension (h : p.fileName? = some name) (hdots : p.endsInDots name = false) :
    (p.withExtension extension).parent = p.parent ∧
      (p.withExtension extension).fileName?.map stem = some (stem name) ∧
      (p.withExtension extension).extension? = some extension := by
  obtain ⟨hother, hnil, hsingle, hdouble⟩ := fileName_of_stem hslash hne h
  obtain ⟨hlast, hname, -, -⟩ := fileName?_eq_some.1 h
  have hfile := p.fileName?_sibling hother hnil hsingle hdouble
  have hstem : stem name ≠ [] := stem_ne_nil hname
  rw [withExtension_eq h, hdots, if_neg (by simp)]
  refine ⟨p.parent_sibling (hlast ▸ hname) hother hnil hsingle, ?_, ?_⟩
  · rw [hfile, Option.map_some, stem_append hdot hstem]
  · rw [extension?, hfile, Option.bind_some, extensionOf?_append hdot hstem, Option.map_some,
      String.ofList_toList]

include hslash hdot hne in
/--
Replacing an extension once more changes nothing, unless a file name of two dots and an extension
was followed by something the first time.
-/
theorem withExtension_withExtension_iff :
    (p.withExtension extension).withExtension extension = p.withExtension extension ↔
      ∀ name, p.fileName? = some name → IsDotted name → p.text.toList = p.split.1 ++ name := by
  cases h : p.fileName? with
  | none => simp [withExtension_of_none h]
  | some name =>
      have hiff := endsInDots_iff h
      simp only [Option.some.injEq, forall_eq']
      by_cases hdots : p.endsInDots name = true
      · rw [withExtension_eq h, if_pos hdots, withExtension_of_none p.fileName?_sibling_dots]
        exact iff_of_true rfl fun _ => (hiff.1 hdots).2
      · obtain ⟨hother, hnil, hsingle, hdouble⟩ := fileName_of_stem hslash hne h
        obtain ⟨-, hname, hname', -⟩ := fileName?_eq_some.1 h
        have hfile := p.fileName?_sibling hother hnil hsingle hdouble
        have hstem := stem_append hdot (stem_ne_nil hname)
        -- The new path ends in its file name, so only the stem counts the second time.
        have hagain : (p.sibling (stem name ++ '.' :: extension.toList)).endsInDots
            (stem name ++ '.' :: extension.toList) = true ↔ IsDotted name := by
          rw [← stem_eq_dot_iff hname', endsInDots, hstem,
            p.split_sibling hother hnil hsingle]
          simp [sibling]
        rw [withExtension_eq h, if_neg hdots, withExtension_eq hfile, hstem,
          p.sibling_sibling hother hnil hsingle, p.sibling_sibling hother hnil hsingle]
        by_cases hdotted : IsDotted name
        · rw [if_pos (hagain.2 hdotted)]
          refine iff_of_false (fun heq => hdouble (sibling_inj heq).symm) fun htext => ?_
          exact hdots (hiff.2 ⟨hdotted, htext hdotted⟩)
        · rw [if_neg (mt hagain.1 hdotted)]
          exact iff_of_true rfl fun hdotted' => absurd hdotted' hdotted

end WithExtension

end Path

open VerifierSession.Path

/-- A path that another extension leaves as it is names no file, or it has the extension. -/
theorem Path.of_same_withExtension {p : Path} {extension : String}
    (hslash : '/' ∉ extension.toList) (hdot : '.' ∉ extension.toList)
    (hne : extension.toList ≠ []) (hsame : Same (p.withExtension extension) p) :
    p.fileName? = none ∨ p.extension? = some extension := by
  cases h : p.fileName? with
  | none => exact .inl rfl
  | some name =>
      right
      obtain ⟨-, hname, -, hdouble⟩ := fileName?_eq_some.1 h
      rw [withExtension_eq h] at hsame
      split_ifs at hsame with hdots
      · exact absurd (eq_of_same_sibling h (by decide) (by decide) (by decide) hsame).symm hdouble
      · obtain ⟨hother, hnil, hsingle, -⟩ := fileName_of_stem hslash hne h
        have heq := eq_of_same_sibling h hother hnil hsingle hsame
        rw [extension?, h, Option.bind_some, ← heq, extensionOf?_append hdot (stem_ne_nil hname),
          Option.map_some, String.ofList_toList]

/--
Where an encoding is saved.  Beside the program, under its stem and with an extension of its own,
unless the path ends in a file name of two dots and an extension: then what is left names the
directory above.  Saving the encoding of an encoding leads to the same place, unless such a file
name is followed by a separator or a dot.  The place is the program's own only if that names no file
or has the extension already, and it is never that of a program to verify.
-/
theorem encodingPath_beside_source (p : Path) :
    (∀ name, p.fileName? = some name → ¬ (IsDotted name ∧ p.text.toList = p.split.1 ++ name) →
      (encodingPath p).parent = p.parent ∧
      (encodingPath p).fileName?.map stem = some (stem name) ∧
      (encodingPath p).extension? = some "vpr") ∧
    (∀ name, p.fileName? = some name → IsDotted name → p.text.toList = p.split.1 ++ name →
      encodingPath p = p.sibling ['.', '.'] ∧ (encodingPath p).fileName? = none) ∧
    (encodingPath (encodingPath p) = encodingPath p ↔
      ∀ name, p.fileName? = some name → IsDotted name → p.text.toList = p.split.1 ++ name) ∧
    (Same (encodingPath p) p → p.fileName? = none ∨ p.extension? = some "vpr") ∧
    (isVerifierSource p = true →
      ¬ Same (encodingPath p) p ∧ isVerifierSource (encodingPath p) = false) := by
  have hslash : '/' ∉ "vpr".toList := by decide
  have hdot : '.' ∉ "vpr".toList := by decide
  have hne : "vpr".toList ≠ [] := by decide
  have hkept : ∀ name, p.fileName? = some name →
      ¬ (IsDotted name ∧ p.text.toList = p.split.1 ++ name) →
      (encodingPath p).parent = p.parent ∧
      (encodingPath p).fileName?.map stem = some (stem name) ∧
      (encodingPath p).extension? = some "vpr" := by
    intro name h hkeeps
    exact parts_withExtension hslash hdot hne h
      (Bool.eq_false_iff.2 (mt (endsInDots_iff h).1 hkeeps))
  have hlost : ∀ name, p.fileName? = some name → IsDotted name →
      p.text.toList = p.split.1 ++ name →
      encodingPath p = p.sibling ['.', '.'] ∧ (encodingPath p).fileName? = none := by
    intro name h hdotted htext
    have heq : encodingPath p = p.sibling ['.', '.'] := by
      rw [encodingPath, withExtension_eq h, if_pos ((endsInDots_iff h).2 ⟨hdotted, htext⟩)]
    exact ⟨heq, heq ▸ p.fileName?_sibling_dots⟩
  refine ⟨hkept, hlost, withExtension_withExtension_iff hslash hdot hne,
    of_same_withExtension hslash hdot hne, fun hsource => ?_⟩
  have hextension : p.extension? = some "hhl" := by simpa [isVerifierSource] using hsource
  cases h : p.fileName? with
  | none => simp [extension?, h] at hextension
  | some name =>
      constructor
      · intro hsame
        rcases of_same_withExtension hslash hdot hne hsame with hnone | hvpr
        · simp [h] at hnone
        · simp [hextension] at hvpr
      · by_cases hloses : IsDotted name ∧ p.text.toList = p.split.1 ++ name
        · simp [isVerifierSource, extension?, (hlost name h hloses.1 hloses.2).2]
        · simp [isVerifierSource, (hkept name h hloses).2.2]

/-- The name of a program is lost, and that of another one is lost the second time. -/
theorem encodingPath_of_dots :
    isVerifierSource ⟨"..hhl"⟩ = true ∧ Path.fileName? ⟨"..hhl"⟩ = some "..hhl".toList ∧
      encodingPath ⟨"..hhl"⟩ = ⟨".."⟩ ∧ (encodingPath ⟨"..hhl"⟩).extension? = none ∧
      encodingPath ⟨"..hhl/"⟩ = ⟨"..vpr"⟩ ∧ encodingPath (encodingPath ⟨"..hhl/"⟩) = ⟨".."⟩ := by
  decide

end VerifierSession
