import VerifierSession.Proofs.Grammar

/-!
# One value for a text

The grammar is unambiguous: a text spells one value at most.

* `Blank.unique`, `Spelled.unique` and `IsNumber.unique`: white space, strings, and numbers that
  nothing extends, end in one place;
* `Tree.StartsWith`: the first character of a value says of what kind it is;
* `unique_of_derives`: a value, and what follows an item or a member, is read in one way;
* `Spells.unique`: a whole text, and `Denotes` for the value that it is.
-/

namespace VerifierSession
namespace Json

/-! ## Tokens -/

theorem Blank.unique {t a b : List Char} {c d : Char} (hc : isJsonBlank c = false)
    (hd : isJsonBlank d = false) (ha : Blank t (c :: a)) (hb : Blank t (d :: b)) :
    c :: a = d :: b := by
  generalize hrest : c :: a = rest at ha
  induction ha with
  | nil r =>
      subst hrest
      exact (hb.eq_of_not_blank hc).symm
  | cons hblank hlater ih =>
      cases hb with
      | nil => simp [hd] at hblank
      | cons _ hb => exact ih hb hrest

/-- A backslash begins an escape, with a letter or with four digits. -/
theorem Spelled.of_slash {t r : List Char} {letters : List Letter}
    (h : Spelled ('\\' :: t) letters r) (hr : r.head? = some '"') :
    (∃ letter c t' later, t = letter :: t' ∧ escapeValue? letter = some c ∧
      letters = .char c :: later ∧ Spelled t' later r) ∨
    ∃ ds n t' later, t = 'u' :: (ds ++ t') ∧ ds.length = 4 ∧ hexFrom? 0 ds = some n ∧
      letters = .unit n :: later ∧ Spelled t' later r := by
  cases h with
  | nil => cases hr
  | plain _ hslash => exact absurd rfl hslash
  | short hvalue hlater => exact .inl ⟨_, _, _, _, rfl, hvalue, rfl, hlater⟩
  | unit hlength hvalue hlater => exact .inr ⟨_, _, _, _, rfl, hlength, hvalue, rfl, hlater⟩

/-- A string closes at its first quotation mark that no backslash stands before. -/
theorem Spelled.unique {t r r' : List Char} {letters letters' : List Letter}
    (h : Spelled t letters r) (h' : Spelled t letters' r') (hr : r.head? = some '"')
    (hr' : r'.head? = some '"') : letters' = letters ∧ r' = r := by
  induction h generalizing letters' with
  | nil r =>
      cases h' with
      | nil => exact ⟨rfl, rfl⟩
      | plain hquote => exact absurd (Option.some.inj hr) hquote
      | short => cases hr
      | unit => cases hr
  | plain hquote hslash _ _ ih =>
      cases h' with
      | nil => exact absurd (Option.some.inj hr') hquote
      | plain _ _ _ hlater =>
          rcases ih hlater hr with ⟨rfl, rfl⟩
          exact ⟨rfl, rfl⟩
      | short => exact absurd rfl hslash
      | unit => exact absurd rfl hslash
  | short hvalue _ ih =>
      rcases h'.of_slash hr' with ⟨letter, c, t', later, heq, hvalue', rfl, hlater⟩ |
        ⟨ds, n, t', later, heq, -⟩
      · cases heq
        cases hvalue.symm.trans hvalue'
        rcases ih hlater hr with ⟨rfl, rfl⟩
        exact ⟨rfl, rfl⟩
      · cases heq
        cases hvalue
  | unit hlength hvalue _ ih =>
      rcases h'.of_slash hr' with ⟨letter, c, t', later, heq, hvalue', -⟩ |
        ⟨ds, n, t', later, heq, hlength', hvalue', rfl, hlater⟩
      · cases heq
        cases hvalue'
      · rcases List.append_inj (List.cons.inj heq).2 (hlength.trans hlength'.symm) with ⟨rfl, rfl⟩
        cases hvalue.symm.trans hvalue'
        rcases ih hlater hr with ⟨rfl, rfl⟩
        exact ⟨rfl, rfl⟩

theorem Quoted.unique {t r r' : List Char} {letters letters' : List Letter}
    (h : Quoted t letters r) (h' : Quoted t letters' r') : letters' = letters ∧ r' = r := by
  rcases h with ⟨inner, rfl, hletters⟩
  rcases h' with ⟨inner', heq, hletters'⟩
  cases heq
  rcases hletters.unique hletters' rfl rfl with ⟨rfl, hrest⟩
  exact ⟨rfl, (List.cons.inj hrest).2⟩

theorem AllDigits.isNumeric {ds : List Char} (h : AllDigits ds) : ∀ c ∈ ds, isNumeric c = true := by
  intro c hc
  simp [Json.isNumeric, h c hc]

theorem IsNumber.isNumeric {w : List Char} (h : IsNumber w) : ∀ c ∈ w, isNumeric c = true := by
  rcases h with ⟨sign, whole, fraction, exponent, rfl, hsign, hwhole, hfraction, hexponent⟩
  have hnil : ∀ c ∈ [], Json.isNumeric c = true := List.forall_mem_nil _
  have hone : ∀ {c : Char}, Json.isNumeric c = true → ∀ d ∈ [c], Json.isNumeric d = true :=
    fun hc => List.forall_mem_singleton.2 hc
  simp only [List.forall_mem_append]
  refine ⟨?_, ?_, ?_, ?_⟩
  · rcases hsign with rfl | rfl
    · exact hnil
    · exact hone (by decide)
  · rcases hwhole with rfl | ⟨d, ds, rfl, -, hd, hds⟩
    · exact hone (by decide)
    · exact AllDigits.isNumeric fun c hc => (List.mem_cons.1 hc).elim (fun h => h ▸ hd) (hds c)
  · rcases hfraction with rfl | ⟨ds, rfl, -, hds⟩
    · exact hnil
    · exact List.forall_mem_cons.2 ⟨by decide, hds.isNumeric⟩
  · rcases hexponent with rfl | ⟨mark, signs, ds, rfl, hmark, hsigns, -, hds⟩
    · exact hnil
    · simp only [List.forall_mem_cons, List.forall_mem_append]
      refine ⟨?_, ?_, hds.isNumeric⟩
      · rcases hmark with rfl | rfl <;> decide
      · rcases hsigns with rfl | rfl | rfl
        · exact hnil
        · exact hone (by decide)
        · exact hone (by decide)

theorem IsNumber.takeWhile_append {w r : List Char} (h : IsNumber w) (hr : Ends r) :
    (w ++ r).takeWhile Json.isNumeric = w := by
  rw [List.takeWhile_append_of_pos h.isNumeric]
  cases r with
  | nil => simp
  | cons c r => simp [isNumeric_of_ends hr]

theorem IsNumber.unique {w w' r r' : List Char} (h : IsNumber w) (h' : IsNumber w') (hr : Ends r)
    (hr' : Ends r') (heq : w ++ r = w' ++ r') : w' = w ∧ r' = r := by
  have hw : w = w' := by
    calc
      w = (w ++ r).takeWhile Json.isNumeric := (h.takeWhile_append hr).symm
      _ = (w' ++ r').takeWhile Json.isNumeric := by rw [heq]
      _ = w' := h'.takeWhile_append hr'
  subst hw
  exact ⟨rfl, (List.append_cancel_left heq).symm⟩

/-! ## The first character -/

/-- The character that a value of a kind begins with. -/
def Tree.StartsWith (v : Tree) (c : Char) : Prop :=
  match v with
  | .null => c = 'n'
  | .boolean b => c = if b then 't' else 'f'
  | .number _ => isDigit c = true ∨ c = '-'
  | .text _ => c = '"'
  | .list _ => c = '['
  | .object _ => c = '\x7b'

theorem IsNumber.exists_cons {w : List Char} (h : IsNumber w) :
    ∃ c w', w = c :: w' ∧ (isDigit c = true ∨ c = '-') := by
  rcases h with ⟨sign, whole, fraction, exponent, rfl, rfl | rfl, hwhole, -, -⟩
  · rcases hwhole with rfl | ⟨d, ds, rfl, -, hd, -⟩
    · exact ⟨'0', _, rfl, .inl (by decide)⟩
    · exact ⟨d, _, rfl, .inl hd⟩
  · exact ⟨'-', _, rfl, .inr rfl⟩

theorem Derives.exists_startsWith {v : Tree} {t r : List Char} (h : Derives (.value v) t r) :
    ∃ c t', t = c :: t' ∧ v.StartsWith c := by
  cases h with
  | null r => exact ⟨_, _, rfl, rfl⟩
  | true r => exact ⟨_, _, rfl, rfl⟩
  | false r => exact ⟨_, _, rfl, rfl⟩
  | number r hw =>
      rcases hw.exists_cons with ⟨c, w', rfl, hc⟩
      exact ⟨c, w' ++ r, rfl, hc⟩
  | text hquoted =>
      rcases hquoted with ⟨inner, rfl, -⟩
      exact ⟨_, _, rfl, rfl⟩
  | noItems => exact ⟨_, _, rfl, rfl⟩
  | list => exact ⟨_, _, rfl, rfl⟩
  | noMembers => exact ⟨_, _, rfl, rfl⟩
  | object => exact ⟨_, _, rfl, rfl⟩

theorem Derives.startsWith {v : Tree} {c : Char} {t r : List Char}
    (h : Derives (.value v) (c :: t) r) : v.StartsWith c := by
  rcases h.exists_startsWith with ⟨c', t', heq, hc⟩
  cases heq
  exact hc

/-- A value begins with none of the characters that may stand behind one. -/
theorem Tree.StartsWith.not_ends {v : Tree} {c : Char} (h : v.StartsWith c) :
    ¬ (isJsonBlank c = true ∨ c = ',' ∨ c = ']' ∨ c = '\x7d') := by
  have hnumeric : isNumeric c = true →
      ¬ (isJsonBlank c = true ∨ c = ',' ∨ c = ']' ∨ c = '\x7d') := by
    intro hc hends
    have hnot : isNumeric c = false :=
      isNumeric_of_ends (r := []) fun _ _ heq => (List.cons.inj heq).1 ▸ hends
    simp [hc] at hnot
  cases v with
  | null => cases h; decide
  | boolean b => cases b <;> cases h <;> decide
  | number w =>
      apply hnumeric
      rcases h with hdigit | rfl
      · simp [isNumeric, hdigit]
      · decide
  | text letters => cases h; decide
  | list items => cases h; decide
  | object members => cases h; decide

theorem Tree.StartsWith.same_kind {v w : Tree} {c : Char} (hv : v.StartsWith c)
    (hw : w.StartsWith c) :
    match v with
    | .null => w = .null
    | .boolean b => w = .boolean b
    | .number _ => ∃ written, w = .number written
    | .text _ => ∃ letters, w = .text letters
    | .list _ => ∃ items, w = .list items
    | .object _ => ∃ members, w = .object members := by
  have hnumber : isDigit c = true ∨ c = '-' →
      c ≠ 'n' ∧ c ≠ 't' ∧ c ≠ 'f' ∧ c ≠ '"' ∧ c ≠ '[' ∧ c ≠ '\x7b' := by
    rintro (hdigit | rfl)
    · refine ⟨?_, ?_, ?_, ?_, ?_, ?_⟩ <;> (rintro rfl; cases hdigit)
    · decide
  cases v <;> cases w <;> grind [Tree.StartsWith]

/-! ## Values -/

theorem Derives.ends_moreItems {vs : List Tree} {t r : List Char}
    (h : Derives (.moreItems vs) t r) : Ends t := by
  cases h with
  | lastItem hclose => exact hclose.ends (ends_cons (.inr (.inl rfl)))
  | nextItem hcomma => exact hcomma.ends (ends_cons (.inl rfl))

theorem Derives.ends_moreMembers {ms : List (List Letter × Tree)} {t r : List Char}
    (h : Derives (.moreMembers ms) t r) : Ends t := by
  cases h with
  | lastMember hclose => exact hclose.ends (ends_cons (.inr (.inr rfl)))
  | nextMember hcomma => exact hcomma.ends (ends_cons (.inl rfl))

theorem Tree.StartsWith.not_blank {v : Tree} {c : Char} (h : v.StartsWith c) :
    isJsonBlank c = false := by
  cases hc : isJsonBlank c with
  | false => rfl
  | true => exact absurd (.inl hc) h.not_ends

theorem unique_start {v w : Tree} {t a b r r' : List Char} (ha : Blank t a) (hb : Blank t b)
    (hv : Derives (.value v) a r) (hw : Derives (.value w) b r') : b = a := by
  rcases hv.exists_startsWith with ⟨c, a, rfl, hc⟩
  rcases hw.exists_startsWith with ⟨d, b, rfl, hd⟩
  exact hb.unique hd.not_blank hc.not_blank ha

theorem isMark_not_blank {c : Char} (h : c = ',' ∨ c = ']' ∨ c = '\x7d') :
    isJsonBlank c = false := by
  rcases h with rfl | rfl | rfl <;> decide

theorem not_start {v : Tree} {t a b r : List Char} {c : Char}
    (hc : c = ',' ∨ c = ']' ∨ c = '\x7d') (ha : Blank t (c :: a)) (hb : Blank t b)
    (hv : Derives (.value v) b r) : False := by
  rcases hv.exists_startsWith with ⟨d, b, rfl, hd⟩
  cases ha.unique (isMark_not_blank hc) hd.not_blank hb
  exact hd.not_ends (.inr hc)

theorem exists_quote_of_member {m : List Letter × Tree} {t r : List Char}
    (h : Derives (.member m) t r) : ∃ t', t = '"' :: t' := by
  cases h with
  | member hname =>
      rcases hname with ⟨t', rfl, -⟩
      exact ⟨t', rfl⟩

/-- A part of a text is read in one way, if something ends it. -/
def Unique (p : Part) (t r : List Char) : Prop :=
  match p with
  | .value v => ∀ v' r', Derives (.value v') t r' → Ends r → Ends r' → v' = v ∧ r' = r
  | .moreItems vs => ∀ vs' r', Derives (.moreItems vs') t r' → vs' = vs ∧ r' = r
  | .member m => ∀ m' r', Derives (.member m') t r' → Ends r → Ends r' → m' = m ∧ r' = r
  | .moreMembers ms => ∀ ms' r', Derives (.moreMembers ms') t r' → ms' = ms ∧ r' = r

theorem unique_of_derives {p : Part} {t r : List Char} (h : Derives p t r) : Unique p t r := by
  -- The first character settles the kind of the other value, and the first character behind white
  -- space settles whether something follows.
  induction h with
  | null r =>
      intro v' r' h' _ _
      cases Tree.StartsWith.same_kind (v := .null) rfl h'.startsWith
      cases h'
      exact ⟨rfl, rfl⟩
  | true r =>
      intro v' r' h' _ _
      cases Tree.StartsWith.same_kind (v := .boolean true) rfl h'.startsWith
      cases h'
      exact ⟨rfl, rfl⟩
  | false r =>
      intro v' r' h' _ _
      cases Tree.StartsWith.same_kind (v := .boolean false) rfl h'.startsWith
      cases h'
      exact ⟨rfl, rfl⟩
  | @number w r hw =>
      intro v' r' h' hends hends'
      rcases hw.exists_cons with ⟨c, w', rfl, hc⟩
      rcases Tree.StartsWith.same_kind (v := .number (c :: w')) hc h'.startsWith with ⟨written, rfl⟩
      -- Where the number ends is not seen from its beginning, so the text must be any text here.
      generalize htext : c :: w' ++ r = text at h'
      cases h' with
      | number r' hw' =>
          rcases hw.unique hw' hends hends' htext with ⟨rfl, rfl⟩
          exact ⟨rfl, rfl⟩
  | text hquoted =>
      intro v' r' h' _ _
      have hstart := hquoted
      rcases hstart with ⟨inner, rfl, -⟩
      rcases Tree.StartsWith.same_kind (v := .text []) rfl h'.startsWith with ⟨letters, rfl⟩
      cases h' with
      | text hquoted' =>
          rcases hquoted.unique hquoted' with ⟨rfl, rfl⟩
          exact ⟨rfl, rfl⟩
  | noItems hclose =>
      intro v' r' h' _ _
      rcases Tree.StartsWith.same_kind (v := .list []) rfl h'.startsWith with ⟨items, rfl⟩
      cases h' with
      | noItems hclose' =>
          cases hclose.unique (by decide) (by decide) hclose'
          exact ⟨rfl, rfl⟩
      | list hblank hv _ => exact (not_start (by simp) hclose hblank hv).elim
  | list hblank hv hvs ihv ihvs =>
      intro v' r' h' _ _
      rcases Tree.StartsWith.same_kind (v := .list []) rfl h'.startsWith with ⟨items, rfl⟩
      cases h' with
      | noItems hclose => exact (not_start (by simp) hclose hblank hv).elim
      | list hblank' hv' hvs' =>
          cases unique_start hblank hblank' hv hv'
          rcases ihv _ _ hv' hvs.ends_moreItems hvs'.ends_moreItems with ⟨rfl, rfl⟩
          rcases ihvs _ _ hvs' with ⟨rfl, rfl⟩
          exact ⟨rfl, rfl⟩
  | lastItem hclose =>
      intro vs' r' h'
      cases h' with
      | lastItem hclose' =>
          cases hclose.unique (by decide) (by decide) hclose'
          exact ⟨rfl, rfl⟩
      | nextItem hcomma => cases hclose.unique (by decide) (by decide) hcomma
  | nextItem hcomma hblank hv hvs ihv ihvs =>
      intro vs' r' h'
      cases h' with
      | lastItem hclose => cases hclose.unique (by decide) (by decide) hcomma
      | nextItem hcomma' hblank' hv' hvs' =>
          cases hcomma.unique (by decide) (by decide) hcomma'
          cases unique_start hblank hblank' hv hv'
          rcases ihv _ _ hv' hvs.ends_moreItems hvs'.ends_moreItems with ⟨rfl, rfl⟩
          rcases ihvs _ _ hvs' with ⟨rfl, rfl⟩
          exact ⟨rfl, rfl⟩
  | noMembers hclose =>
      intro v' r' h' _ _
      rcases Tree.StartsWith.same_kind (v := .object []) rfl h'.startsWith with ⟨members, rfl⟩
      cases h' with
      | noMembers hclose' =>
          cases hclose.unique (by decide) (by decide) hclose'
          exact ⟨rfl, rfl⟩
      | object hblank hm _ =>
          rcases exists_quote_of_member hm with ⟨t', rfl⟩
          cases hclose.unique (by decide) (by decide) hblank
  | object hblank hm hms ihm ihms =>
      intro v' r' h' _ _
      rcases Tree.StartsWith.same_kind (v := .object []) rfl h'.startsWith with ⟨members, rfl⟩
      rcases exists_quote_of_member hm with ⟨inner, rfl⟩
      cases h' with
      | noMembers hclose => cases hclose.unique (by decide) (by decide) hblank
      | object hblank' hm' hms' =>
          rcases exists_quote_of_member hm' with ⟨inner', rfl⟩
          cases hblank.unique (by decide) (by decide) hblank'
          rcases ihm _ _ hm' hms.ends_moreMembers hms'.ends_moreMembers with ⟨rfl, rfl⟩
          rcases ihms _ _ hms' with ⟨rfl, rfl⟩
          exact ⟨rfl, rfl⟩
  | member hname hcolon hblank hv ihv =>
      intro m' r' h' hends hends'
      cases h' with
      | member hname' hcolon' hblank' hv' =>
          rcases hname.unique hname' with ⟨rfl, rfl⟩
          cases hcolon.unique (by decide) (by decide) hcolon'
          cases unique_start hblank hblank' hv hv'
          rcases ihv _ _ hv' hends hends' with ⟨rfl, rfl⟩
          exact ⟨rfl, rfl⟩
  | lastMember hclose =>
      intro ms' r' h'
      cases h' with
      | lastMember hclose' =>
          cases hclose.unique (by decide) (by decide) hclose'
          exact ⟨rfl, rfl⟩
      | nextMember hcomma => cases hclose.unique (by decide) (by decide) hcomma
  | nextMember hcomma hblank hm hms ihm ihms =>
      intro ms' r' h'
      rcases exists_quote_of_member hm with ⟨inner, rfl⟩
      cases h' with
      | lastMember hclose => cases hclose.unique (by decide) (by decide) hcomma
      | nextMember hcomma' hblank' hm' hms' =>
          rcases exists_quote_of_member hm' with ⟨inner', rfl⟩
          cases hcomma.unique (by decide) (by decide) hcomma'
          cases hblank.unique (by decide) (by decide) hblank'
          rcases ihm _ _ hm' hms.ends_moreMembers hms'.ends_moreMembers with ⟨rfl, rfl⟩
          rcases ihms _ _ hms' with ⟨rfl, rfl⟩
          exact ⟨rfl, rfl⟩

/-- A text spells one value at most. -/
theorem Spells.unique {text : List Char} {v w : Tree} (hv : Spells text v) (hw : Spells text w) :
    w = v := by
  rcases hv with ⟨t, r, hblank, hderives, hend⟩
  rcases hw with ⟨t', r', hblank', hderives', hend'⟩
  cases unique_start hblank hblank' hderives hderives'
  exact (unique_of_derives hderives _ _ hderives' (hend.ends ends_nil) (hend'.ends ends_nil)).1

/-- A text is a value, and no other one. -/
def Denotes (text : List Char) (v : Tree) : Prop :=
  ∀ w, Spells text w ↔ w = v

theorem Spells.denotes {text : List Char} {v : Tree} (h : Spells text v) : Denotes text v := by
  intro w
  constructor
  · exact h.unique
  · rintro rfl
    exact h

end Json
end VerifierSession
