import Mathlib.Control.Monad.Basic
import VerifierSession.Console.Excerpt
import VerifierSession.Proofs.Positions

/-!
# Excerpts and the text they stand for

An excerpt takes its line from the lines of the text, and its marker from a span that was looked up
in the offsets of the document.  Both cut the text into the same lines, so the carets stand below
the characters that the span was looked up for.

* `Text.lines_append_lineFeed` and `Text.lines_line`: how a text falls into lines;
* `Snapshot.Line`: a line of a document with its break, and what is above and below it; for it both
  ways of cutting agree (`Line.start_eq`, `Line.contentEnd_eq`, `Line.getElem?_lines`);
* `Snapshot.Line.positionAt_eq`: the column of an offset is the number of characters before it;
* `Console.excerptAt_marks_span`: the excerpt for a span.
-/

namespace VerifierSession

/-! ## The lines of a text -/

namespace Text

theorem lines_return_lineFeed (rest : List Char) :
    lines ('\r' :: '\n' :: rest) = lines ('\n' :: rest) := rfl

/-- A character that does not begin a line break stands in front of the first line. -/
theorem lines_cons {c : Char} {rest : List Char} (hfeed : c ≠ '\n')
    (hbreak : ¬ (c = '\r' ∧ rest.head? = some '\n')) :
    lines (c :: rest) =
      match lines rest with
      | [] => [[c]]
      | line :: more => (c :: line) :: more := by
  have hreturn : ∀ below, c = '\r' → rest = '\n' :: below → False := by
    rintro below rfl rfl
    exact hbreak ⟨rfl, rfl⟩
  rw [lines]
  all_goals first | rfl | assumption

/-- A line ends at its line feed, without the carriage return that may stand before it. -/
theorem lines_line {line : List Char} (hline : '\n' ∉ line) (below : List Char) :
    lines (line ++ '\n' :: below) = lineContent line ('\n' :: below) :: lines below := by
  induction line with
  | nil => rfl
  | cons c line ih =>
      have hc : c ≠ '\n' := fun h => hline (h ▸ List.mem_cons_self)
      have hrest := ih fun h => hline (List.mem_cons_of_mem _ h)
      cases line with
      | nil =>
          by_cases hreturn : c = '\r'
          · subst hreturn
            rfl
          · have hnext : ¬ (c = '\r' ∧ ('\n' :: below).head? = some '\n') := fun h => hreturn h.1
            have hcons := lines_cons hc hnext
            simp [hcons, hreturn, lineContent, lines]
      | cons c' line =>
          have hc' : c' ≠ '\n' := by
            rintro rfl
            exact hline (List.mem_cons_of_mem _ List.mem_cons_self)
          rw [List.cons_append, lines_cons hc (by simp [hc']), hrest, lineContent_cons]

theorem lines_lastLine {line : List Char} (hline : '\n' ∉ line) :
    lines line = if line = [] then [] else [line] := by
  induction line with
  | nil => rfl
  | cons c line ih =>
      have hc : c ≠ '\n' := fun h => hline (h ▸ List.mem_cons_self)
      have hrest : '\n' ∉ line := fun h => hline (List.mem_cons_of_mem _ h)
      have hnext : ¬ (c = '\r' ∧ line.head? = some '\n') :=
        fun h => hrest (List.mem_of_mem_head? h.2)
      rw [lines_cons hc hnext, ih hrest, if_neg (List.cons_ne_nil c line)]
      cases line with
      | nil => rfl
      | cons c' line => rfl

/-- Whole lines at the front of a text are lines of their own, one for each line feed. -/
theorem lines_append_lineFeed (xs rest : List Char) :
    lines (xs ++ '\n' :: rest) = lines (xs ++ ['\n']) ++ lines rest ∧
      (lines (xs ++ ['\n'])).length = (xs ++ ['\n']).count '\n' := by
  induction xs with
  | nil => exact ⟨rfl, rfl⟩
  | cons c xs ih =>
      obtain ⟨happend, hlength⟩ := ih
      simp only [List.cons_append]
      by_cases hfeed : c = '\n'
      · subst hfeed
        simp only [lines, happend, List.cons_append, List.length_cons, hlength,
          List.count_cons_self, and_self]
      · rw [List.count_cons_of_ne hfeed, ← hlength]
        by_cases hbreak : c = '\r' ∧ (xs ++ ['\n']).head? = some '\n'
        · -- The line break is that of the line feed behind it.
          obtain ⟨rfl, hnext⟩ := hbreak
          obtain ⟨below, hbelow⟩ := List.head?_eq_some_iff.1 hnext
          have hrest : xs ++ '\n' :: rest = '\n' :: (below ++ rest) := by
            rw [List.append_cons, hbelow, List.cons_append]
          rw [hrest, lines_return_lineFeed, ← hrest, happend, hbelow, lines_return_lineFeed]
          exact ⟨rfl, rfl⟩
        · have hsame : (xs ++ '\n' :: rest).head? = (xs ++ ['\n']).head? := by
            cases xs <;> rfl
          rw [lines_cons hfeed hbreak, lines_cons hfeed (hsame ▸ hbreak), happend]
          cases hlines : lines (xs ++ ['\n']) with
          | nil =>
              rw [hlines, List.count_append] at hlength
              simp at hlength
          | cons line more => exact ⟨rfl, rfl⟩

end Text

namespace Snapshot

/-! ## Lines of a document -/

/-- A line of a document: what is above it, its content, its line break, and what is below it. -/
structure Line (d : Snapshot) (above content brk below : List Char) : Prop where
  chars_eq : d.chars = above ++ (content ++ (brk ++ below))
  above_eq : above = [] ∨ ∃ lines, above = lines ++ ['\n']
  not_mem_content : '\n' ∉ content
  brk_cases :
    (brk = [] ∧ below = []) ∨ (brk = ['\n'] ∧ content.getLast? ≠ some '\r') ∨
      brk = ['\r', '\n']

namespace Line

variable {d : Snapshot} {above content brk below : List Char}
  (line : d.Line above content brk below)
include line

/-- A line is the last one, or its content stands before a line feed, with or without a return. -/
theorem last_or_lineFeed :
    (brk = [] ∧ below = []) ∨
      ∃ tail, brk = tail ++ ['\n'] ∧ '\n' ∉ content ++ tail ∧
        lineContent (content ++ tail) ('\n' :: below) = content := by
  rcases line.brk_cases with hlast | ⟨rfl, hreturn⟩ | rfl
  · exact .inl hlast
  · exact .inr ⟨[], rfl, by simpa using line.not_mem_content, by simp [lineContent, hreturn]⟩
  · exact .inr ⟨['\r'], rfl, by simpa using line.not_mem_content, by simp [lineContent]⟩

theorem cut : d.Cut above content (brk ++ below) :=
  ⟨line.chars_eq, line.above_eq, line.not_mem_content⟩

theorem start_eq : d.lineStarts[above.count '\n']? = some (byteLength above) := by
  have hlength : above.count '\n' < d.lineStarts.length := by
    rw [line.cut.lineStarts_eq, List.length_append, List.length_cons, length_lineStartsFrom]
    omega
  rw [List.getElem?_eq_getElem hlength, ← List.getD_eq_getElem _ 0 hlength, line.cut.start_eq]

theorem contentEnd_eq : d.contentEnd (above.count '\n') = byteLength (above ++ content) := by
  rcases line.last_or_lineFeed with ⟨rfl, rfl⟩ | ⟨tail, rfl, htail, hcontent⟩
  · have hnext : d.lineStarts[above.count '\n' + 1]? = none := by
      rw [line.cut.next_eq]
      rfl
    simp [contentEnd, hnext, line.chars_eq]
  · -- The cut right before the line feed shows the next line start, and what stands before it.
    have hcut : d.Cut above (content ++ tail) ('\n' :: below) :=
      ⟨by simp [line.chars_eq], line.above_eq, htail⟩
    have hnext : d.lineStarts[above.count '\n' + 1]? =
        some (byteLength (above ++ (content ++ tail)) + 1) := by
      rw [hcut.next_eq, lineStartsFrom_lineFeed, List.head?_cons]
    have hbefore : takeBytes (byteLength (above ++ (content ++ tail))) d.chars =
        above ++ (content ++ tail) := by
      have hchars : d.chars = (above ++ (content ++ tail)) ++ '\n' :: below := by
        simp [line.chars_eq]
      rw [hchars, takeBytes_byteLength]
    have hbreak := min_break above (content ++ tail) below
    rw [hcontent, Nat.min_eq_right (by split <;> omega)] at hbreak
    simp only [contentEnd, hnext, Nat.add_sub_cancel, line.cut.start_eq, hbefore, hbreak]

/-- The lines of the text have the content of the line at its place, unless it is last and empty. -/
theorem getElem?_lines :
    (Text.lines d.chars)[above.count '\n']? =
      if content = [] ∧ brk = [] then none else some content := by
  have hfirst : (Text.lines (content ++ (brk ++ below)))[0]? =
      if content = [] ∧ brk = [] then none else some content := by
    rcases line.last_or_lineFeed with ⟨rfl, rfl⟩ | ⟨tail, rfl, htail, hcontent⟩
    · rw [List.append_nil, List.append_nil, Text.lines_lastLine line.not_mem_content]
      by_cases hempty : content = []
      · simp [hempty]
      · simp [hempty]
    · have hsplit : content ++ (tail ++ ['\n'] ++ below) = (content ++ tail) ++ '\n' :: below := by
        simp
      rw [hsplit, Text.lines_line htail, hcontent]
      simp
  rw [line.chars_eq]
  rcases line.above_eq with rfl | ⟨lines, rfl⟩
  · exact hfirst
  · obtain ⟨happend, hlength⟩ := Text.lines_append_lineFeed lines (content ++ (brk ++ below))
    rw [List.append_assoc, List.singleton_append, happend, ← hlength,
      List.getElem?_append_right (Nat.le_refl _), Nat.sub_self]
    exact hfirst

end Line

/-! ## Offsets on a line -/

/-- A line of a document, and an offset on it. -/
structure LineAt (d : Snapshot) (offset : Nat) (above content brk below : List Char) : Prop
    extends d.Line above content brk below where
  le_offset : byteLength above ≤ offset
  offset_lt : brk ≠ [] → offset < byteLength (above ++ (content ++ brk))

theorem exists_lineAt (d : Snapshot) (offset : Nat) :
    ∃ above content brk below, d.LineAt offset above content brk below := by
  have hchars := (takeBytes_append_dropBytes offset d.chars).symm
  obtain ⟨head, part, hbefore, cut⟩ := exists_cut hchars
  have hle : byteLength head ≤ offset := by
    have htaken := byteLength_takeBytes_le offset d.chars
    rw [hbefore, byteLength_append] at htaken
    omega
  by_cases hfeed : '\n' ∈ dropBytes offset d.chars
  · -- The line goes on to the next line feed.
    obtain ⟨between, below, hafter, hbetween⟩ := List.eq_append_cons_of_mem hfeed
    have hline : '\n' ∉ part ++ between := by simp [cut.not_mem_line, hbetween]
    have hlt : offset < byteLength (head ++ (part ++ between ++ ['\n'])) := by
      obtain ⟨c, rest, hrest⟩ := List.exists_cons_of_ne_nil (List.ne_nil_of_mem hfeed)
      have hstop := lt_of_dropBytes_eq_cons hrest
      rw [hbefore] at hstop
      -- The first character behind the offset is among those up to the line feed.
      have hsize : c.utf8Size ≤ byteLength (between ++ ['\n']) := by
        rw [hafter] at hrest
        cases between with
        | nil =>
            cases hrest
            decide
        | cons c' between =>
            cases hrest
            simp only [List.cons_append, byteLength]
            omega
      simp only [byteLength_append] at hstop hsize ⊢
      omega
    have hwhole : d.chars = head ++ ((part ++ between) ++ '\n' :: below) := by
      rw [cut.chars_eq, hafter]
      simp
    by_cases hreturn : (part ++ between).getLast? = some '\r'
    · obtain ⟨content, hcontent⟩ := List.getLast?_eq_some_iff.1 hreturn
      rw [hcontent] at hline hlt hwhole
      refine ⟨head, content, ['\r', '\n'], below, ⟨by simp [hwhole], cut.head_eq, ?_, ?_⟩, hle, ?_⟩
      · exact fun h => hline (List.mem_append_left _ h)
      · exact .inr (.inr rfl)
      · exact fun _ => by simpa using hlt
    · refine ⟨head, part ++ between, ['\n'], below, ⟨by simp [hwhole], cut.head_eq, hline, ?_⟩,
        hle, fun _ => hlt⟩
      exact .inr (.inl ⟨rfl, hreturn⟩)
  · refine ⟨head, part ++ dropBytes offset d.chars, [], [], ⟨?_, cut.head_eq, ?_, .inl ⟨rfl, rfl⟩⟩,
      hle, fun h => absurd rfl h⟩
    · simp [← cut.chars_eq]
    · simp [cut.not_mem_line, hfeed]

namespace LineAt

variable {d : Snapshot} {offset : Nat} {above content brk below : List Char}
  (line : d.LineAt offset above content brk below)
include line

/-- The characters before an offset on a line are whole lines, and then some of that line. -/
theorem exists_takeBytes_eq :
    ∃ part after, takeBytes offset d.chars = above ++ part ∧ d.Cut above part after ∧
      part = takeBytes (offset - byteLength above) (content ++ (brk ++ below)) := by
  have htake : takeBytes offset d.chars =
      above ++ takeBytes (offset - byteLength above) (content ++ (brk ++ below)) := by
    rw [line.chars_eq, takeBytes_append line.le_offset]
  have hparts := takeBytes_append_dropBytes (offset - byteLength above) (content ++ (brk ++ below))
  refine ⟨_, dropBytes (offset - byteLength above) (content ++ (brk ++ below)), htake,
    ⟨?_, line.above_eq, ?_⟩, rfl⟩
  · rw [hparts, line.chars_eq]
  · rcases line.last_or_lineFeed with ⟨rfl, rfl⟩ | ⟨tail, rfl, htail, -⟩
    · -- There is no line feed at all.
      intro hmem
      have hall : '\n' ∈ content ++ ([] ++ []) := hparts ▸ List.mem_append_left _ hmem
      exact line.not_mem_content (by simpa using hall)
    · -- The part of the line is too short to reach its line feed.
      have hlt := line.offset_lt (by simp)
      have hle := line.le_offset
      have hsplit : content ++ (tail ++ ['\n'] ++ below) =
          (content ++ tail ++ ['\n']) ++ below := by simp
      have hshort : offset - byteLength above < byteLength (content ++ tail ++ ['\n']) := by
        simp only [byteLength_append] at hlt ⊢
        omega
      rw [hsplit, takeBytes_append_of_lt hshort]
      have hprefix : takeBytes (offset - byteLength above) (content ++ tail ++ ['\n']) <+:
          content ++ tail ++ ['\n'] := ⟨_, takeBytes_append_dropBytes _ _⟩
      rcases List.prefix_concat_iff.1 hprefix with hwhole | hinside
      · have hbytes := byteLength_takeBytes_le (offset - byteLength above)
          (content ++ tail ++ ['\n'])
        rw [hwhole] at hbytes
        omega
      · exact fun hmem => htail (hinside.subset hmem)

/-- The column of an offset is the number of characters of the line's content before it. -/
theorem positionAt_eq (hencoding : d.encoding = .utf32) (hsize : byteLength d.chars < 4294967296) :
    d.positionAt offset =
      ⟨above.count '\n', (takeBytes (offset - byteLength above) content).length⟩ := by
  obtain ⟨part, after, htake, cut, hpart⟩ := line.exists_takeBytes_eq
  have hfloor : d.floorBoundary offset = byteLength (above ++ part) := by
    rw [floorBoundary, htake]
  have hslice : d.slice (byteLength above)
      (min (byteLength (above ++ part)) (byteLength (above ++ content))) =
        takeBytes (offset - byteLength above) content := by
    have hmin : min (byteLength (above ++ part)) (byteLength (above ++ content)) -
        byteLength above = min (byteLength part) (byteLength content) := by
      simp only [byteLength_append]
      omega
    rw [slice, hmin, line.chars_eq, dropBytes_byteLength, hpart, takeBytes_min]
  have hlines : above.count '\n' < 4294967296 := by
    have hcount := List.count_le_length (a := '\n') (l := above)
    have hlength := length_le_byteLength above
    rw [line.chars_eq, byteLength_append] at hsize
    omega
  have hcolumns : (takeBytes (offset - byteLength above) content).length < 4294967296 := by
    have hshort := length_takeBytes_le (offset - byteLength above) content
    have hlength := length_le_byteLength content
    rw [line.chars_eq, byteLength_append, byteLength_append] at hsize
    omega
  simp only [positionAt, hfloor, cut.lineAt_eq, line.cut.start_eq, line.contentEnd_eq, hslice,
    Encoding.measure, hencoding, Encoding.units_utf32, saturate_of_lt hlines,
    saturate_of_lt hcolumns]

/-- An offset on the same line is there, and one on a later line is behind all its content. -/
theorem line_or_behind {stop : Nat} (hle : offset ≤ stop) :
    d.LineAt stop above content brk below ∨
      (brk ≠ [] ∧ byteLength (above ++ (content ++ brk)) ≤ stop) := by
  by_cases hon : brk ≠ [] ∧ byteLength (above ++ (content ++ brk)) ≤ stop
  · exact .inr hon
  · refine .inl ⟨line.toLine, Nat.le_trans line.le_offset hle, ?_⟩
    intro hbrk
    exact Nat.not_le.1 fun h => hon ⟨hbrk, h⟩

/-- A position behind the line's break is on a later line. -/
theorem lt_line (hsize : byteLength d.chars < 4294967296) (hbrk : brk ≠ []) {stop : Nat}
    (hstop : byteLength (above ++ (content ++ brk)) ≤ stop) :
    above.count '\n' < (d.positionAt stop).line := by
  have hchars : d.chars = (above ++ (content ++ brk)) ++ below := by simp [line.chars_eq]
  have hfeed : 0 < brk.count '\n' := by
    rcases line.brk_cases with ⟨rfl, -⟩ | ⟨rfl, -⟩ | rfl
    · exact absurd rfl hbrk
    · decide
    · decide
  rw [d.positionAt_eq_along hsize, Position.along_line, hchars, takeBytes_append hstop]
  simp only [List.count_append]
  omega

end LineAt

/-! ## Spans that were looked up -/

/-- The offsets that a span was looked up for: the two ends of a range, or of a word. -/
inductive LookedUp (d : Snapshot) (span : Span) : Nat → Nat → Prop where
  | range {left right : Int} :
      d.span left right = .ok span → LookedUp d span left.toNat right.toNat
  | word {offset : Int} :
      d.wordSpanAt offset = .ok span →
      LookedUp d span (d.floorBoundary offset.toNat)
        (d.floorBoundary offset.toNat + byteLength (d.wordAt (d.floorBoundary offset.toNat)))

theorem eq_of_between? {start stop : Position} {span : Span}
    (h : Span.between? start stop = some span) : span.start = start ∧ span.stop = stop := by
  unfold Span.between? at h
  split at h
  · cases h
    exact ⟨rfl, rfl⟩
  · cases h

/-- A span lies between the positions of the offsets that it was looked up for. -/
theorem LookedUp.eq_positionAt {d : Snapshot} {span : Span} {start stop : Nat}
    (h : d.LookedUp span start stop) :
    start ≤ stop ∧ span.start = d.positionAt start ∧ span.stop = d.positionAt stop := by
  cases h with
  | @range left right hspan =>
      unfold Snapshot.span at hspan
      split at hspan
      · cases hspan
      · next hordered =>
          split at hspan
          · next between hbetween =>
              cases hspan
              exact ⟨by omega, eq_of_between? hbetween⟩
          · cases hspan
  | @word offset hspan =>
      unfold Snapshot.wordSpanAt at hspan
      split at hspan
      · cases hspan
      · simp only at hspan
        split at hspan
        · next between hbetween =>
            cases hspan
            exact ⟨Nat.le_add_right _ _, eq_of_between? hbetween⟩
        · cases hspan

end Snapshot

namespace Console

open Snapshot

/-- Where the carets of an excerpt end, as characters of the line that are before the span's end. -/
theorem stopColumn_eq {d : Snapshot} {span : Span} {start stop : Nat}
    {above content brk below : List Char} (hencoding : d.encoding = .utf32)
    (hsize : byteLength d.chars < 4294967296) (hspan : d.LookedUp span start stop)
    (line : d.LineAt start above content brk below) :
    stopColumn content span = (takeBytes (stop - byteLength above) content).length := by
  obtain ⟨hle, hstart, hstop⟩ := hspan.eq_positionAt
  have hline : span.start.line = above.count '\n' := by
    rw [hstart, line.positionAt_eq hencoding hsize]
  rcases line.line_or_behind hle with hon | ⟨hbrk, hbehind⟩
  · rw [stopColumn, hline, hstop, hon.positionAt_eq hencoding hsize, if_pos rfl]
  · have hlater := line.lt_line hsize hbrk hbehind
    have hall : byteLength content ≤ stop - byteLength above := by
      simp only [byteLength_append] at hbehind
      omega
    rw [stopColumn, hline, hstop, if_neg (Nat.ne_of_gt hlater), takeBytes_of_le hall]

/--
An excerpt shows the text that a span was looked up for.  In a document whose characters are
counted one by one, the lines of the text are the stretches from where a line starts to where its
content ends, but for a last line that is empty.  A span that was looked up starts on one line.
There is no excerpt exactly if that is the last line and empty; otherwise the excerpt is the content
of the line, with a blank below each character before the span and a caret below each character in
it, up to the end of the line if the span goes on, and one caret if there are none.  Carets reach at
most one column past the line.
-/
theorem excerptAt_marks_span (text : List Char) (path : Path)
    (hsize : byteLength text < 4294967296) :
    let d : Snapshot := ⟨text, .utf32⟩
    (∀ above content brk below, d.Line above content brk below →
      let n := above.count '\n'
      d.lineStarts[n]? = some (byteLength above) ∧
        d.contentEnd n = byteLength (above ++ content) ∧
        (Text.lines text)[n]? = if content = [] ∧ brk = [] then none else some content) ∧
    ∀ span start stop, d.LookedUp span start stop →
      (∃ above content brk below, d.LineAt start above content brk below) ∧
      ∀ above content brk below, d.LineAt start above content brk below →
        let before := (takeBytes (start - byteLength above) content).length
        let inside := (takeBytes (stop - byteLength above) content).length - before
        span.start.line = above.count '\n' ∧
          (excerptAt (some (path, d)) path span = none ↔ content = [] ∧ brk = []) ∧
          (¬ (content = [] ∧ brk = []) →
            excerptAt (some (path, d)) path span =
              some ⟨content, List.replicate before ' ' ++ List.replicate (max inside 1) '^'⟩) ∧
          before + max inside 1 ≤ content.length + 1 := by
  intro d
  refine ⟨fun above content brk below line =>
    ⟨line.start_eq, line.contentEnd_eq, line.getElem?_lines⟩, ?_⟩
  intro span start stop hspan
  refine ⟨d.exists_lineAt start, ?_⟩
  intro above content brk below line before inside
  obtain ⟨-, hstart, -⟩ := hspan.eq_positionAt
  have hposition : span.start = ⟨above.count '\n', before⟩ :=
    hstart.trans (line.positionAt_eq rfl hsize)
  have hexcerpt : excerptAt (some (path, d)) path span =
      if content = [] ∧ brk = [] then none
      else some ⟨content, List.replicate before ' ' ++ List.replicate (max inside 1) '^'⟩ := by
    have hlines := line.getElem?_lines
    have hmarker : marker content span =
        List.replicate before ' ' ++ List.replicate (max inside 1) '^' := by
      rw [marker, stopColumn_eq rfl hsize hspan line, hposition]
    simp only [excerptAt, Option.filter_some, decide_true, if_true, Option.bind_some, excerpt,
      hposition, hlines]
    split
    · rfl
    · rw [Option.map_some, hmarker]
  refine ⟨by rw [hposition], ?_, ?_, ?_⟩
  · rw [hexcerpt]
    simp
  · intro hline
    rw [hexcerpt, if_neg hline]
  · have hbefore := length_takeBytes_le (start - byteLength above) content
    have hinside := length_takeBytes_le (stop - byteLength above) content
    omega

/-- A document with a line break of two characters, and a character of two bytes. -/
def excerptText : List Char :=
  "x := 1\r\nassert é > 0\n".toList

/-- A span from the long character to far behind the end, and one on the last line. -/
theorem excerptAt_of_excerptText :
    let d : Snapshot := ⟨excerptText, .utf32⟩
    byteLength excerptText < 4294967296 ∧
      (∃ span, d.span 16 99 = .ok span ∧
        excerptAt (some (⟨"a.hhl"⟩, d)) ⟨"a.hhl"⟩ span =
          some ⟨"assert é > 0".toList, "       ^^^^^".toList⟩) ∧
      ∃ span, d.span 99 99 = .ok span ∧ excerptAt (some (⟨"a.hhl"⟩, d)) ⟨"a.hhl"⟩ span = none := by
  intro d
  have hsize : byteLength excerptText < 4294967296 := by decide +kernel
  have hmarks := (excerptAt_marks_span excerptText ⟨"a.hhl"⟩ hsize).2
  have hspan : d.span 16 99 = .ok ⟨⟨1, 7⟩, ⟨2, 0⟩, by decide⟩ := by decide +kernel
  have hend : d.span 99 99 = .ok ⟨⟨2, 0⟩, ⟨2, 0⟩, by decide⟩ := by decide +kernel
  have hline : d.LineAt 16 "x := 1\r\n".toList "assert é > 0".toList ['\n'] [] :=
    ⟨⟨by decide +kernel, .inr ⟨"x := 1\r".toList, by decide +kernel⟩, by decide +kernel,
      .inr (.inl ⟨rfl, by decide +kernel⟩)⟩, by decide +kernel, fun _ => by decide +kernel⟩
  have hlast : d.LineAt 99 excerptText [] [] [] :=
    ⟨⟨by decide +kernel, .inr ⟨"x := 1\r\nassert é > 0".toList, by decide +kernel⟩, by simp,
      .inl ⟨rfl, rfl⟩⟩, by decide +kernel, fun h => absurd rfl h⟩
  refine ⟨hsize, ⟨_, hspan, ?_⟩, ⟨_, hend, ?_⟩⟩
  · have hexcerpt := ((hmarks _ _ _ (.range hspan)).2 _ _ _ _ hline).2.2.1 (by decide +kernel)
    exact hexcerpt.trans (by decide +kernel)
  · exact ((hmarks _ _ _ (.range hend)).2 _ _ _ _ hlast).2.1.2 ⟨rfl, rfl⟩

end Console
end VerifierSession
